import Mathlib
import RelationalDb.Proofs.Store.Journals

/-!
# Writing to what a reader sees

To a reader the write of a journal is the same write to the store that is seen: it ends in the
same way, and afterwards the written store is seen in the place of that one and all others are
seen as before.
-/

namespace RelationalDb

namespace Journal

def sees (committed : Committed) (j : Journal) : String → Option TableStore :=
  ({ committed := committed, journal := some j } : View).store?

variable {committed : Committed} {j j' : Journal} {table : String} {s : TableStore} {α : Type}

theorem sees_of_staged (h : j.staged.get? table = some s) : j.sees committed table = some s := by
  unfold sees
  rw [store?_view, h]

theorem sees_of_not_staged (h : j.staged.get? table = none) :
    j.sees committed table = committed.store? table := by
  unfold sees
  rw [store?_view, h]

theorem sees_congr (h : j'.staged.get? table = j.staged.get? table) :
    j'.sees committed table = j.sees committed table := by
  unfold sees
  rw [store?_view, store?_view, h]

theorem perform_stage_sees (hj : j.staged.Ordered) (hs : j.sees committed table = some s) :
    ∃ j', (stage committed table).perform j = (.ok s, j') ∧ j'.staged.Ordered ∧
      j'.staged.get? table = some s ∧ j'.sees committed = j.sees committed := by
  rw [perform_stage]
  cases hstaged : j.staged.get? table with
  | some s' =>
      have heq : s' = s := Option.some.inj ((sees_of_staged hstaged).symm.trans hs)
      rw [heq] at hstaged ⊢
      exact ⟨j, rfl, hj, hstaged, rfl⟩
  | none =>
      rw [sees_of_not_staged hstaged] at hs
      rw [hs]
      have hget := SortedMap.get?_insert hj table
      have hthere : (j.staged.insert table s).get? table = some s := by
        rw [hget, if_pos rfl]
      refine ⟨_, rfl, hj.insert _ _, hthere, ?_⟩
      funext t
      by_cases ht : t = table
      · rw [ht, sees_of_staged hthere, sees_of_not_staged hstaged, hs]
      · apply sees_congr
        dsimp only
        rw [hget, if_neg ht]

theorem perform_staging_sees (hj : j.staged.Ordered) (hs : j.sees committed table = some s)
    (a : Action TableStore α) (names : TableStore → α → List String)
    (f : α → ChangeSet → ChangeSet) :
    ∃ j', (staging committed table a names f).perform j = ((a.perform s).1, j') ∧
      j'.staged.Ordered ∧
        j'.sees committed = Function.update (j.sees committed) table (some (a.perform s).2) := by
  rcases perform_stage_sees hj hs with ⟨j₁, hstage, hj₁, hs₁, hsame⟩
  have hon : (onStaged table s a).perform j₁ =
      ((a.perform s).1, { j₁ with staged := j₁.staged.insert table (a.perform s).2 }) := by
    unfold onStaged
    rw [Action.perform_onPart, hs₁]
    rfl
  have hseen : ∀ j' : Journal, j'.staged = j₁.staged.insert table (a.perform s).2 →
      j'.sees committed = Function.update (j.sees committed) table (some (a.perform s).2) := by
    intro j' hj'
    rw [← hsame]
    funext t
    have hget := SortedMap.get?_insert hj₁ table t (a.perform s).2
    by_cases ht : t = table
    · rw [ht, if_pos rfl] at hget
      rw [ht, Function.update_self]
      exact sees_of_staged (hj' ▸ hget)
    · rw [if_neg ht] at hget
      rw [Function.update_of_ne ht]
      exact sees_congr (hj' ▸ hget)
  unfold staging
  rw [Action.perform_bind_ok hstage]
  rcases ha : a.perform s with ⟨r, s'⟩
  rw [ha] at hon hseen
  cases r with
  | error e =>
      rw [Action.perform_bind_error hon]
      exact ⟨_, rfl, hj₁.insert _ _, hseen _ rfl⟩
  | ok r =>
      rw [Action.perform_bind_ok hon]
      exact ⟨_, rfl, hj₁.insert _ _, hseen _ rfl⟩

theorem perform_staging_none (hs : j.sees committed table = none) (a : Action TableStore α)
    (names : TableStore → α → List String) (f : α → ChangeSet → ChangeSet) :
    (staging committed table a names f).perform j = (.error (.tableNotFound table), j) := by
  have hstage : (stage committed table).perform j = (.error (.tableNotFound table), j) := by
    rw [perform_stage]
    cases hstaged : j.staged.get? table with
    | some s =>
        rw [sees_of_staged hstaged] at hs
        cases hs
    | none =>
        rw [sees_of_not_staged hstaged] at hs
        rw [hs]
  unfold staging
  exact Action.perform_bind_error hstage

end Journal

end RelationalDb
