import Upmem.HashTable
import Upmem.Lib.LinearProbing

namespace Upmem.HashTable
open LinearProbing

/-- The entry at an index, which has to be inside the array. -/
def entry (table : Nat → DataItem) (hashIndex : Nat) : Option DataItem :=
  if hashIndex < TABLE_SIZE then some (table hashIndex) else none

/-- The loop of `insertItem` with the iterations it has left. Its probes are
checked: there is no result when one is outside the array. -/
def insertFrom (key : Nat) (data : BitVec 32) : Nat → Nat → (Nat → DataItem) → Option (Nat → DataItem)
  | 0, _, table => some table
  | left + 1, hashIndex, table => (entry table hashIndex).bind fun item =>
    if item.key = -1 then some (Function.update table hashIndex ⟨data, BitVec.ofNat 32 key⟩)
    else insertFrom key data left (hashIndex % TABLE_SIZE + 1) table

def insertItem (table : Nat → DataItem) (key : Nat) (data : BitVec 32) : Option (Nat → DataItem) :=
  insertFrom key data TABLE_SIZE (hashCode key) table

/-- `inith`. -/
def inith : Nat → DataItem := fun _ => ⟨0, -1⟩

/-- A sequence of calls of `insertItem` with keys and data. -/
def insertItems (items : List (Nat × BitVec 32)) (table : Nat → DataItem) : Option (Nat → DataItem) :=
  items.foldlM (fun table item => insertItem table item.1 item.2) table

/-- `searchFrom` with its probes checked. -/
def searchChecked (table : Nat → DataItem) (key : Nat) (left hashIndex : Nat) : Option (BitVec 32) :=
  (entry table hashIndex).bind fun item =>
    if item.key = -1 then some 0
    else if item.key = BitVec.ofNat 32 key then some item.data
    else
      match left with
      | 0 => some 0
      | left + 1 => searchChecked table key left ((hashIndex + 1) % TABLE_SIZE)

/-- `probe` with its probes checked, from a sum of 0. -/
def probeChecked (hashArray : Nat → DataItem) (key : Nat) (left hashIndex : Nat) : Option (BitVec 32) :=
  match left with
  | 0 => some 0
  | left + 1 => (entry hashArray hashIndex).bind fun item =>
    if item.key = BitVec.ofNat 32 key then some item.data
    else if item.key = -1 then some 0
    else probeChecked hashArray key left (hashIndex % TABLE_SIZE + 1)

section Checked
variable {table : Nat → DataItem} {key hashIndex : Nat}

/-- The search of the host stays inside the array and is the search with its probes checked. -/
theorem searchChecked_eq (inside : hashIndex < TABLE_SIZE) (left : Nat) :
    searchChecked table key left hashIndex = some (searchFrom table key left hashIndex) := by
  induction left generalizing hashIndex with
  | zero =>
    rw [searchChecked, entry, if_pos inside, Option.bind_some, searchFrom]
    split_ifs <;> rfl
  | succ left ih =>
    rw [searchChecked, entry, if_pos inside, Option.bind_some, searchFrom]
    split_ifs
    · rfl
    · rfl
    · exact ih (Nat.mod_lt _ (by decide))

end Checked

/-- A key and its data. -/
abbrev Item := Nat × BitVec 32

def homeOf (item : Item) : Nat := hashCode item.1

theorem homeOf_lt (item : Item) : homeOf item < TABLE_SIZE := Nat.mod_lt _ (by decide)

/-- The table has the items in these slots, and no others. -/
structure Holds (places : List (Item × Nat)) (table : Nat → DataItem) : Prop where
  occupied : ∀ place ∈ places, table place.2 = ⟨place.1.2, BitVec.ofNat 32 place.1.1⟩
  empty : ∀ j, j ∉ places.map Prod.snd → (table j).key = -1

theorem holds_inith : Holds [] inith := ⟨by simp, fun _ _ => rfl⟩

theorem ofNat_ne_free {key : Nat} (nonnegative : key < 2 ^ 31) : BitVec.ofNat 32 key ≠ -1 := by
  intro same
  have value := congrArg BitVec.toNat same
  rw [BitVec.toNat_ofNat, Nat.mod_eq_of_lt (nonnegative.trans (by decide))] at value
  have bound : 2 ^ 31 ≤ (-1 : BitVec 32).toNat := by decide
  omega

section Insert
variable {places : List (Item × Nat)} {table : Nat → DataItem} {key hashIndex slot : Nat} {data : BitVec 32}

theorem Holds.used (holds : Holds places table) (nonnegative : ∀ place ∈ places, place.1.1 < 2 ^ 31) {j : Nat}
    (taken : j ∈ places.map Prod.snd) : (table j).key ≠ -1 := by
  obtain ⟨place, member, rfl⟩ := List.mem_map.mp taken
  rw [holds.occupied place member]
  exact ofNat_ne_free (nonnegative place member)

/-- The loop goes past entries that are used. -/
theorem insertFrom_walk (left : Nat) (below : slot ≤ TABLE_SIZE) (start : hashIndex ≤ slot)
    (used : ∀ j, hashIndex ≤ j → j < slot → (table j).key ≠ -1) :
    insertFrom key data (slot - hashIndex + left) hashIndex table = insertFrom key data left slot table := by
  induction rest : slot - hashIndex generalizing hashIndex with
  | zero =>
    obtain rfl : hashIndex = slot := by omega
    rw [Nat.zero_add]
  | succ rest ih =>
    have inside : hashIndex < TABLE_SIZE := by omega
    rw [Nat.add_right_comm, insertFrom, entry, if_pos inside, Option.bind_some,
      if_neg (used hashIndex le_rfl (by omega)),
      Nat.mod_eq_of_lt inside]
    exact ih (by omega) (fun j above => used j (by omega)) (by omega)

theorem Holds.concat (holds : Holds places table) {item : Item} (free : slot ∉ places.map Prod.snd) :
    Holds (places ++ [(item, slot)]) (Function.update table slot ⟨item.2, BitVec.ofNat 32 item.1⟩) := by
  refine ⟨fun place member => ?_, fun j absent => ?_⟩
  · rcases List.mem_append.mp member with old | new
    · have other : place.2 ≠ slot := fun same => free (same ▸ List.mem_map_of_mem old)
      rw [Function.update_of_ne other, holds.occupied place old]
    · obtain rfl := List.mem_singleton.mp new
      exact Function.update_self ..
  · simp only [List.map_append, List.map_singleton, List.mem_append, List.mem_singleton, not_or] at absent
    rw [Function.update_of_ne absent.2]
    exact holds.empty j absent.1

/-- An item goes to the first free slot from its home on. -/
theorem Holds.insert_some (holds : Holds places table) (nonnegative : ∀ place ∈ places, place.1.1 < 2 ^ 31)
    (item : Item) (above : homeOf item ≤ slot) (inside : slot < TABLE_SIZE) (free : slot ∉ places.map Prod.snd)
    (passed : ∀ j, homeOf item ≤ j → j < slot → j ∈ places.map Prod.snd) :
    insertItem table item.1 item.2 = some (Function.update table slot ⟨item.2, BitVec.ofNat 32 item.1⟩) := by
  have walk :=
    @insertFrom_walk table item.1 (homeOf item) slot item.2 (TABLE_SIZE - (slot - homeOf item)) inside.le above
    fun j from_home below => holds.used nonnegative (passed j from_home below)
  rw [Nat.add_sub_cancel' (by omega)] at walk
  obtain ⟨left, more⟩ := Nat.exists_eq_succ_of_ne_zero (show TABLE_SIZE - (slot - homeOf item) ≠ 0 by omega)
  rw [more, insertFrom, entry, if_pos inside, Option.bind_some, if_pos (holds.empty slot free)] at walk
  exact walk

/-- Where all slots from the home of an item on are taken, the array is left behind. -/
theorem Holds.insert_none (holds : Holds places table) (nonnegative : ∀ place ∈ places, place.1.1 < 2 ^ 31)
    (few : places.length < TABLE_SIZE) (item : Item)
    (passed : ∀ j, homeOf item ≤ j → j < TABLE_SIZE → j ∈ places.map Prod.snd) :
    insertItem table item.1 item.2 = none := by
  have positive : homeOf item ≠ 0 := by
    intro zero
    have slots : (List.range TABLE_SIZE).Subperm (places.map Prod.snd) :=
      List.subperm_of_subset List.nodup_range fun j member => passed j (by omega) (List.mem_range.mp member)
    have lengths := slots.length_le
    rw [List.length_range, List.length_map] at lengths
    omega
  have home := homeOf_lt item
  have walk := @insertFrom_walk table item.1 (homeOf item) TABLE_SIZE item.2 (homeOf item) le_rfl home.le
    fun j from_home below => holds.used nonnegative (passed j from_home below)
  rw [Nat.sub_add_cancel home.le] at walk
  obtain ⟨left, more⟩ := Nat.exists_eq_succ_of_ne_zero positive
  rw [insertItem, show hashCode item.1 = homeOf item from rfl, walk, more, insertFrom, entry, if_neg (lt_irrefl _)]
  rfl

/-- Each item of a sequence takes the first free slot from its home on. If all
of these are in the array, the table then has the items there; otherwise some
insertion leaves the array. -/
theorem insertItems_cases {items : List Item} (nonnegative : ∀ item ∈ items, item.1 < 2 ^ 31)
    (few : items.length ≤ TABLE_SIZE) : ∃ places, Placed homeOf places ∧ places.map Prod.fst = items ∧
      (((∀ place ∈ places, place.2 < TABLE_SIZE) ∧ ∃ table, insertItems items inith = some table ∧
        Holds places table) ∨
        ((¬∀ place ∈ places, place.2 < TABLE_SIZE) ∧ insertItems items inith = none)) := by
  induction items using List.reverseRecOn with
  | nil => exact ⟨[], placed_nil, rfl, .inl ⟨by simp, inith, rfl, holds_inith⟩⟩
  | append_singleton items item ih =>
    rw [List.length_append, List.length_singleton] at few
    obtain ⟨places, placed, same, result⟩ :=
      ih (fun old member => nonnegative old (List.mem_append_left _ member)) (by omega)
    have nonnegativePlaces : ∀ place ∈ places, place.1.1 < 2 ^ 31 := fun place member =>
      nonnegative place.1 (List.mem_append_left _ (same ▸ List.mem_map_of_mem member))
    have count : places.length = items.length := by rw [← same, List.length_map]
    obtain ⟨slot, above, free, passed⟩ := exists_free (places.map Prod.snd) (homeOf item)
    have last : insertItems (items ++ [item]) inith =
        (insertItems items inith).bind fun table => insertItem table item.1 item.2 := by
      rw [insertItems, List.foldlM_append]
      simp only [List.foldlM_cons, List.foldlM_nil, bind_pure]
      rfl
    refine ⟨places ++ [(item, slot)], placed.concat above free passed, by rw [List.map_append, same]; rfl, ?_⟩
    rcases result with ⟨within, table, inserted, holds⟩ | ⟨outside, failed⟩
    · rw [last, inserted, Option.bind_some]
      by_cases inside : slot < TABLE_SIZE
      · refine .inl ⟨fun place member => ?_, _, holds.insert_some nonnegativePlaces item above inside free passed,
          holds.concat free⟩
        rcases List.mem_append.mp member with old | new
        · exact within place old
        · exact List.mem_singleton.mp new ▸ inside
      · refine .inr ⟨fun all => inside (all (item, slot) (by simp)), ?_⟩
        exact holds.insert_none nonnegativePlaces (by omega) item fun j from_home below =>
          passed j from_home (by omega)
    · refine .inr ⟨fun all => outside fun place member => all place (List.mem_append_left _ member), ?_⟩
      rw [last, failed]
      rfl

end Insert

/-- The data of the item with a key, 0 without one. -/
def dataOf (items : List Item) (key : Nat) : BitVec 32 :=
  ((items.find? fun item => item.1 = key).map Prod.snd).getD 0

section Lookups
variable {places : List (Item × Nat)} {table : Nat → DataItem} {key hashIndex stop : Nat} {data : BitVec 32}

/-- Both lookups of a key end where an entry ends them. -/
theorem lookups_stop (inside : stop < TABLE_SIZE) (start : hashIndex ≤ stop) (key_ne : BitVec.ofNat 32 key ≠ -1)
    (passed : ∀ j, hashIndex ≤ j → j < stop → (table j).key ≠ -1 ∧ (table j).key ≠ BitVec.ofNat 32 key)
    (ends : table stop = ⟨data, BitVec.ofNat 32 key⟩ ∨ (table stop).key = -1 ∧ data = 0) {left steps : Nat}
    (enough : stop < hashIndex + left) (many : stop ≤ hashIndex + steps) :
    probeChecked table key left hashIndex = some data ∧ searchFrom table key steps hashIndex = data := by
  induction rest : stop - hashIndex generalizing hashIndex left steps with
  | zero =>
    obtain rfl : hashIndex = stop := by omega
    obtain ⟨left, rfl⟩ := Nat.exists_eq_succ_of_ne_zero (show left ≠ 0 by omega)
    rw [probeChecked, entry, if_pos inside, Option.bind_some, searchFrom.eq_def]
    rcases ends with found | ⟨free, rfl⟩
    · rw [found]
      exact ⟨if_pos rfl, (if_neg key_ne).trans (if_pos rfl)⟩
    · exact ⟨(if_neg fun same => key_ne (same.symm.trans free)).trans (if_pos free), if_pos free⟩
  | succ rest ih =>
    obtain ⟨left, rfl⟩ := Nat.exists_eq_succ_of_ne_zero (show left ≠ 0 by omega)
    obtain ⟨steps, rfl⟩ := Nat.exists_eq_succ_of_ne_zero (show steps ≠ 0 by omega)
    obtain ⟨used, other⟩ := passed hashIndex le_rfl (by omega)
    have here : hashIndex < TABLE_SIZE := by omega
    rw [probeChecked, entry, if_pos here, Option.bind_some, if_neg other, if_neg used, searchFrom, if_neg used,
      if_neg other, Nat.mod_eq_of_lt here, Nat.mod_eq_of_lt (show hashIndex + 1 < TABLE_SIZE by omega)]
    exact ih (by omega) (fun j above => passed j (by omega)) (by omega) (by omega) (by omega)

theorem dataOf_absent {items : List Item} (absent : ∀ item ∈ items, item.1 ≠ key) : dataOf items key = 0 := by
  rw [dataOf, List.find?_eq_none.mpr (by simpa using absent)]
  rfl

theorem dataOf_present {items : List Item} (distinct : (items.map Prod.fst).Nodup) {item : Item}
    (member : item ∈ items) :
    dataOf items item.1 = item.2 := by
  induction items with
  | nil => cases member
  | cons each items ih =>
    obtain ⟨fresh, distinct⟩ := List.nodup_cons.mp distinct
    rcases List.mem_cons.mp member with rfl | later
    · simp [dataOf]
    · have other : each.1 ≠ item.1 := fun same => fresh (same ▸ List.mem_map_of_mem later)
      rw [← ih distinct later, dataOf, dataOf, List.find?_cons_of_neg (by simpa using other)]

/-- What the lookups do on a table whose last entry is free. -/
theorem Holds.lookups (holds : Holds places table) (placed : Placed homeOf places)
    (nonnegative : ∀ place ∈ places, place.1.1 < 2 ^ 31) (distinct : ((places.map Prod.fst).map Prod.fst).Nodup)
    (within : ∀ place ∈ places, place.2 < TABLE_SIZE - 1) (keyNonnegative : key < 2 ^ 31) :
    probeChecked table key TABLE_SIZE (hashCode key) = some (dataOf (places.map Prod.fst) key) ∧
      searchFrom table key TABLE_SIZE (hashCode key) = dataOf (places.map Prod.fst) key := by
  have passes {stop : Nat} (taken : ∀ j, hashCode key ≤ j → j < stop → ∃ place ∈ places, place.2 = j ∧
      place.1.1 ≠ key) :
      ∀ j, hashCode key ≤ j → j < stop → (table j).key ≠ -1 ∧ (table j).key ≠ BitVec.ofNat 32 key := by
    intro j above below
    obtain ⟨place, member, rfl, other⟩ := taken j above below
    refine ⟨holds.used nonnegative (List.mem_map_of_mem member), fun same => other ?_⟩
    rw [holds.occupied place member] at same
    have values := congrArg BitVec.toNat same
    rwa [BitVec.toNat_ofNat, BitVec.toNat_ofNat, Nat.mod_eq_of_lt ((nonnegative place member).trans (by decide)),
      Nat.mod_eq_of_lt (keyNonnegative.trans (by decide))] at values
  have home : hashCode key < TABLE_SIZE := Nat.mod_lt _ (by decide)
  have key_ne := ofNat_ne_free keyNonnegative
  by_cases present : ∃ place ∈ places, place.1.1 = key
  · obtain ⟨place, member, rfl⟩ := present
    have below := within place member
    rw [dataOf_present distinct (List.mem_map_of_mem member)]
    refine lookups_stop (by omega) (placed.home_le place member) key_ne (passes fun j above before => ?_)
      (.inl (holds.occupied place member)) (by omega) (by omega)
    obtain ⟨other, there, rfl⟩ := List.mem_map.mp (placed.passed place member j above before)
    refine ⟨other, there, rfl, fun same => ?_⟩
    rw [List.map_map] at distinct
    exact before.ne (congrArg Prod.snd (List.inj_on_of_nodup_map distinct there member same))
  · obtain ⟨stop, above, free, passed⟩ := exists_free (places.map Prod.snd) (hashCode key)
    have last : stop ≤ TABLE_SIZE - 1 := by
      by_contra beyond
      obtain ⟨place, member, same⟩ := List.mem_map.mp (passed (TABLE_SIZE - 1) (by omega) (by omega))
      have below := within place member
      omega
    have absent : ∀ item ∈ places.map Prod.fst, item.1 ≠ key := by
      rintro _ member same
      obtain ⟨place, there, rfl⟩ := List.mem_map.mp member
      exact present ⟨place, there, same⟩
    rw [dataOf_absent absent]
    refine lookups_stop (by omega) above key_ne (passes fun j from_home before => ?_)
      (.inr ⟨holds.empty stop free, rfl⟩)
      (by omega) (by omega)
    obtain ⟨place, there, rfl⟩ := List.mem_map.mp (passed j from_home before)
    exact ⟨place, there, rfl, fun same => present ⟨place, there, same⟩⟩

/-- On a table whose last entry is used the DPU program leaves the array for some key. -/
theorem Holds.probe_leaves (holds : Holds places table) (placed : Placed homeOf places)
    (nonnegative : ∀ place ∈ places, place.1.1 < 2 ^ 31) (within : ∀ place ∈ places, place.2 < TABLE_SIZE)
    (full : TABLE_SIZE - 1 ∈ places.map Prod.snd) :
    ∃ key < 2 ^ 31, probeChecked table key TABLE_SIZE (hashCode key) = none := by
  -- two keys are at home in the last entry, and only one of them can be there
  obtain ⟨key, small, last, absent⟩ :
      ∃ key < 2 ^ 31, hashCode key = TABLE_SIZE - 1 ∧ ∀ place ∈ places, place.1.1 ≠ key := by
    have slots (place : Item × Nat) (member : place ∈ places) (home : hashCode place.1.1 = TABLE_SIZE - 1) :
        place.2 = TABLE_SIZE - 1 := by
      have above : hashCode place.1.1 ≤ place.2 := placed.home_le place member
      have below := within place member
      omega
    by_cases first : ∀ place ∈ places, place.1.1 ≠ TABLE_SIZE - 1
    · exact ⟨TABLE_SIZE - 1, by decide, by decide, first⟩
    · push Not at first
      obtain ⟨place, member, same⟩ := first
      refine ⟨2 * TABLE_SIZE - 1, by decide, by decide, fun other there second => ?_⟩
      have alone := List.inj_on_of_nodup_map placed.distinct member there
        ((slots place member (by rw [same]; decide)).trans (slots other there (by rw [second]; decide)).symm)
      rw [alone, second] at same
      exact absurd same (by decide)
  refine ⟨key, small, ?_⟩
  have used := holds.used nonnegative full
  have other : (table (TABLE_SIZE - 1)).key ≠ BitVec.ofNat 32 key := by
    obtain ⟨place, member, same⟩ := List.mem_map.mp full
    rw [← same, holds.occupied place member]
    intro keys
    have values := congrArg BitVec.toNat keys
    rw [BitVec.toNat_ofNat, BitVec.toNat_ofNat, Nat.mod_eq_of_lt ((nonnegative place member).trans (by decide)),
      Nat.mod_eq_of_lt (small.trans (by decide))] at values
    exact absent place member values
  obtain ⟨left, two⟩ : ∃ left, TABLE_SIZE = left + 2 := ⟨TABLE_SIZE - 2, by decide⟩
  rw [last]
  conv_lhs => arg 3; rw [two]
  rw [probeChecked, entry, if_pos (by decide), Option.bind_some, if_neg other, if_neg used, probeChecked, entry,
    if_neg (by decide)]
  rfl

end Lookups

/-- Every probe of the insertions and of the lookups is inside the array, and
the lookups return the data of every key that was inserted and 0 for every other. -/
def KeepsLaw (items : List Item) : Prop :=
  ∃ table, insertItems items inith = some table ∧ ∀ key < 2 ^ 31,
    searchChecked table key TABLE_SIZE (hashCode key) = some (dataOf items key) ∧
      probeChecked table key TABLE_SIZE (hashCode key) = some (dataOf items key)

/-- From every entry on there are fewer keys at home than entries, so that no
chain of collisions reaches the last entry. -/
def LeavesRoom (items : List Item) : Prop :=
  ∀ i < TABLE_SIZE, items.countP (fun item => i ≤ hashCode item.1) < TABLE_SIZE - i

section Law
variable {items : List Item} {places : List (Item × Nat)}

theorem leavesRoom_iff (placed : Placed homeOf places) (same : places.map Prod.fst = items) :
    LeavesRoom items ↔ ∀ place ∈ places, place.2 < TABLE_SIZE - 1 := by
  have counts (i : Nat) :
      items.countP (fun item => i ≤ hashCode item.1) = places.countP fun place => i ≤ homeOf place.1 := by
    rw [← same, List.countP_map]
    rfl
  have size : 0 < TABLE_SIZE := by decide
  rw [placed.within_iff]
  constructor
  · intro room i le
    have fewer := room i (by omega)
    rw [counts] at fewer
    omega
  · intro few i inside
    have le := few i (by omega)
    rw [counts]
    omega

/-- A sequence of insertions keeps the law of a hash table if and only if its keys leave room at the end. -/
theorem insertItems_keepLaw_iff (nonnegative : ∀ item ∈ items, item.1 < 2 ^ 31)
    (distinct : (items.map Prod.fst).Nodup)
    (few : items.length ≤ TABLE_SIZE) : KeepsLaw items ↔ LeavesRoom items := by
  obtain ⟨places, placed, same, result⟩ := insertItems_cases nonnegative few
  have nonnegativePlaces : ∀ place ∈ places, place.1.1 < 2 ^ 31 := fun place member =>
    nonnegative place.1 (same ▸ List.mem_map_of_mem member)
  rw [leavesRoom_iff placed same]
  constructor
  · rintro ⟨table, inserted, lookups⟩
    rcases result with ⟨within, _, filled, holds⟩ | ⟨_, failed⟩
    · obtain rfl := Option.some.inj (inserted.symm.trans filled)
      intro place member
      have below := within place member
      have last : place.2 ≠ TABLE_SIZE - 1 := by
        intro last
        obtain ⟨key, small, leaves⟩ :=
          holds.probe_leaves placed nonnegativePlaces within (last ▸ List.mem_map_of_mem member)
        exact nomatch leaves.symm.trans (lookups key small).2
      omega
    · exact nomatch inserted.symm.trans failed
  · intro within
    rcases result with ⟨_, table, inserted, holds⟩ | ⟨outside, _⟩
    · refine ⟨table, inserted, fun key small => ?_⟩
      obtain ⟨probed, searched⟩ := holds.lookups placed nonnegativePlaces (by rwa [same]) within small
      rw [same] at probed searched
      exact ⟨(searchChecked_eq (Nat.mod_lt _ (by decide)) _).trans (congrArg some searched), probed⟩
    · exact absurd (fun place member => (within place member).trans_le (Nat.sub_le ..)) outside

end Law

/-- The second of two keys with the same hash code goes to the entry after the first. -/
theorem insertItems_keepLaw_collision : KeepsLaw [(5, 7), (TABLE_SIZE + 5, 8)] :=
  (insertItems_keepLaw_iff (by decide) (by decide) (by decide)).mpr fun i inside => by
    have first : hashCode 5 = 5 := by decide
    have second : hashCode (TABLE_SIZE + 5) = 5 := by decide
    have room : 7 < TABLE_SIZE := by decide
    by_cases below : i ≤ 5
    · exact (List.countP_le_length).trans_lt (show 2 < _ by omega)
    · simp only [List.countP_cons, List.countP_nil, first, second, below]
      simp
      omega

/-- The second of two keys at home in the last entry is looked for past the end of the array. -/
theorem lastEntry_twice_leaves : ¬KeepsLaw [(TABLE_SIZE - 1, 7), (2 * TABLE_SIZE - 1, 8)] := by
  rintro ⟨table, inserted, _⟩
  have last : homeOf (TABLE_SIZE - 1, 7) = TABLE_SIZE - 1 := by decide
  have again : homeOf (2 * TABLE_SIZE - 1, 8) = TABLE_SIZE - 1 := by decide
  have holds := @Holds.concat [] inith (TABLE_SIZE - 1) holds_inith (TABLE_SIZE - 1, 7) List.not_mem_nil
  have first := holds_inith.insert_some (by simp) (TABLE_SIZE - 1, 7) last.le (by decide) List.not_mem_nil
    fun j above below => absurd (last ▸ above) (by omega)
  have second := holds.insert_none (by simp; decide) (by decide) (2 * TABLE_SIZE - 1, 8) fun j above below => by
    rw [again] at above
    simp only [List.nil_append, List.map_singleton, List.mem_singleton]
    omega
  rw [insertItems, List.foldlM_cons, first] at inserted
  exact nomatch (congrArg (· >>= pure) second).symm.trans inserted

end Upmem.HashTable
