import Mathlib.Data.List.Chain
import Mathlib.Data.List.Nodup
import Mathlib.Logic.Function.Basic

namespace WaitQueue
variable {τ : Type}

/-- Each member leads to the next one, and the last one to `back`. -/
def Links (table : τ → τ) (queue : List τ) (back : τ) : Prop :=
  List.IsChain (fun member next => table member = next) (queue ++ [back])

/-- A circular list that is kept in a table: its members, from the first one. -/
structure Ring (table : τ → τ) (queue : List τ) : Prop where
  nodup : queue.Nodup
  links : ∀ first ∈ queue.head?, Links table queue first

section Links
variable {table table' : τ → τ} {queue : List τ} {first last back member next : τ}

@[simp] theorem links_cons_cons {rest : List τ} :
    Links table (member :: next :: rest) back ↔ table member = next ∧ Links table (next :: rest) back :=
  List.isChain_cons_cons

@[simp] theorem links_singleton : Links table [member] back ↔ table member = back :=
  List.isChain_pair

@[simp] theorem links_nil : Links table [] back :=
  List.isChain_singleton _

theorem links_concat : Links table (queue ++ [last]) back ↔ Links table queue last ∧ table last = back := by
  rw [Links, List.append_assoc, List.singleton_append, List.isChain_split, List.isChain_pair, Links]

theorem Links.congr (links : Links table queue back) (same : ∀ member ∈ queue, table' member = table member) :
    Links table' queue back := by
  induction queue with
  | nil => exact links_nil
  | cons member rest ih =>
    cases rest with
    | nil =>
      rw [links_singleton] at links ⊢
      rw [same member List.mem_cons_self, links]
    | cons next rest =>
      rw [links_cons_cons] at links ⊢
      exact ⟨(same member List.mem_cons_self).trans links.1,
        ih links.2 fun other member => same other (List.mem_cons_of_mem _ member)⟩

theorem Links.update [DecidableEq τ] {value : τ} (links : Links table queue back) (outside : member ∉ queue) :
    Links (Function.update table member value) queue back :=
  links.congr fun other inside => Function.update_of_ne (fun same : other = member => outside (same ▸ inside)) _ _

end Links

section Rings
variable {table table' : τ → τ} {queue front : List τ} {first second last tid : τ}

theorem Ring.nil : Ring table [] :=
  ⟨List.nodup_nil, fun _ first => nomatch first⟩

theorem Ring.congr (ring : Ring table queue) (same : ∀ member ∈ queue, table' member = table member) :
    Ring table' queue :=
  ⟨ring.nodup, fun first head => (ring.links first head).congr same⟩

theorem Ring.single (self : table tid = tid) : Ring table [tid] :=
  ⟨List.nodup_singleton _, fun _ head => Option.some.inj head ▸ links_singleton.mpr self⟩

/-- The last member leads to the first one. -/
theorem Ring.table_last (ring : Ring table (front ++ [last])) (head : (front ++ [last]).head? = some first) :
    table last = first :=
  (links_concat.mp (ring.links first head)).2

theorem Ring.table_first {rest : List τ} (ring : Ring table (first :: second :: rest)) : table first = second :=
  (links_cons_cons.mp (ring.links first rfl)).1

/-- A member is added behind the last one. -/
theorem Ring.insert [DecidableEq τ] (ring : Ring table (front ++ [last]))
    (head : (front ++ [last]).head? = some first) (fresh : tid ∉ front ++ [last]) :
    Ring (Function.update (Function.update table tid first) last tid) (front ++ [last] ++ [tid]) := by
  have links := (links_concat.mp (ring.links first head)).1
  have distinct := List.nodup_append.mp ring.nodup
  have lastOutside : last ∉ front := fun inside => distinct.2.2 last inside last (List.mem_singleton_self _) rfl
  have tidOutside : tid ∉ front := fun inside => fresh (List.mem_append_left _ inside)
  have ne : tid ≠ last := fun same => fresh (same ▸ List.mem_append_right _ (List.mem_singleton_self _))
  refine ⟨?_, fun first' head' => ?_⟩
  · exact List.nodup_append.mpr ⟨ring.nodup, List.nodup_singleton _, fun a inside b same =>
      fun eq => fresh (List.mem_singleton.mp same ▸ eq ▸ inside)⟩
  · have same : first' = first := by
      rw [List.head?_append, head] at head'
      exact (Option.some.inj head').symm
    rw [same, links_concat, links_concat]
    refine ⟨⟨(links.update tidOutside).update lastOutside, Function.update_self _ _ _⟩, ?_⟩
    rw [Function.update_of_ne ne, Function.update_self]

/-- The first member is taken out. -/
theorem Ring.remove [DecidableEq τ] (ring : Ring table (first :: (front ++ [last])))
    (head : (front ++ [last]).head? = some second) :
    Ring (Function.update table last second) (front ++ [last]) := by
  obtain ⟨rest, split⟩ : ∃ rest, front ++ [last] = second :: rest := by
    cases shape : front ++ [last] with
    | nil => rw [shape] at head; cases head
    | cons other rest => rw [shape] at head; exact ⟨rest, Option.some.inj head ▸ rfl⟩
  have links := ring.links first rfl
  rw [split, links_cons_cons, ← split, links_concat] at links
  have distinct := (List.nodup_cons.mp ring.nodup).2
  refine ⟨distinct, fun second' head' => ?_⟩
  obtain rfl : second = second' := Option.some.inj (head.symm.trans head')
  have outside : last ∉ front := fun inside =>
    (List.nodup_append.mp distinct).2.2 last inside last (List.mem_singleton_self _) rfl
  exact links_concat.mpr ⟨links.2.1.update outside, Function.update_self _ _ _⟩

end Rings

end WaitQueue
