import Upmem.Lib.StatusChain
import Mathlib.Algebra.BigOperators.Group.List.Basic
import Mathlib.Data.List.Induction

namespace StatusChain
universe u v w
variable {ε : Type u} [DecidableEq ε] {σ : Type v} {ι : Type w} {ok : ε} {body : ι → σ → ε × σ}
  {s t : σ} {items : List ι}

end StatusChain
