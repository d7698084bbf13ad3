import Mathlib
import RelationalDb.Database.Backstore
import RelationalDb.Proofs.Actions
import RelationalDb.Proofs.SortedMaps

/-!
# What a backstore transaction does

A transaction of the backstore applies all of its writes or none.  The calls it counts and
the calls it is told to fail at do not matter to the stores.
-/

namespace RelationalDb

namespace StoreChange

def store : StoreChange → String
  | put store _ | remove store _ | clear store => store

def result (m : Option RowMap) : StoreChange → Option RowMap
  | put _ rows => some ((m.getD {}).putAll rows)
  | remove _ ids => m.map fun rows => ids.foldl SortedMap.erase rows
  | clear _ => some {}

end StoreChange

namespace Backstore

variable {b b' : Backstore} {r : Outcome Unit} {writes : List StoreChange}

def storesAfter (stores : SortedMap String RowMap) (writes : List StoreChange) :
    SortedMap String RowMap :=
  (({ stores := stores } : Backstore).applyAll writes).stores

theorem stores_apply (b : Backstore) (w : StoreChange) :
    (b.apply w).stores = (({ stores := b.stores } : Backstore).apply w).stores := by
  cases w with
  | put name rows => rfl
  | clear name => rfl
  | remove name ids =>
      unfold apply
      dsimp only
      cases b.stores.get? name with
      | none => rfl
      | some m => rfl

theorem stores_applyAll (b : Backstore) (writes : List StoreChange) :
    (b.applyAll writes).stores = storesAfter b.stores writes := by
  unfold storesAfter applyAll
  induction writes generalizing b with
  | nil => rfl
  | cons w rest ih =>
      rw [List.foldl_cons, List.foldl_cons, ih, ih (({ stores := b.stores } : Backstore).apply w),
        stores_apply b w]

theorem faults_applyAll (b : Backstore) (writes : List StoreChange) :
    (b.applyAll writes).faults = b.faults := by
  unfold applyAll
  induction writes generalizing b with
  | nil => rfl
  | cons w rest ih =>
      rw [List.foldl_cons, ih]
      cases w with
      | put name rows => rfl
      | clear name => rfl
      | remove name ids =>
          unfold apply
          dsimp only
          split
          · rfl
          · rfl

theorem perform_count (c : BackstoreCall) (b : Backstore) :
    (count c).perform b = (.ok (), { b with calls := c :: b.calls }) := rfl

theorem perform_call (c : BackstoreCall) (b : Backstore) :
    (call c).perform b =
      match b.faults.find? fun f => f.1 == c with
      | some (_, message) => (.error (.storage message), { b with calls := c :: b.calls })
      | none => (.ok (), { b with calls := c :: b.calls }) := by
  unfold call count
  rw [Action.perform_bind_ok (Action.perform_modify _ b),
    Action.perform_bind_ok (Action.perform_get _)]
  dsimp only
  cases b.faults.find? fun f => f.1 == c with
  | none => rfl
  | some f => rfl

/-- The same stores and the same faults. -/
def Alike (b b' : Backstore) : Prop :=
  b'.stores = b.stores ∧ b'.faults = b.faults

theorem keeps_call (b : Backstore) (c : BackstoreCall) : Action.Keeps (Alike b) (call c) := by
  intro b' h
  rw [perform_call]
  split
  · exact h
  · exact h

/-- A transaction applies all of its writes, or fails and applies none. -/
theorem write_cases (h : (write writes).perform b = (r, b')) :
    b'.faults = b.faults ∧
      ((r = .ok () ∧ b'.stores = storesAfter b.stores writes) ∨
        (∃ e, r = .error e ∧ b'.stores = b.stores)) := by
  unfold write at h
  rw [Action.perform_bind_ok (perform_count .begin b)] at h
  rcases hcalls : (writes.forM fun w => call w.call).perform { b with calls := .begin :: b.calls }
    with ⟨r₁, b₁⟩
  have hkept : Alike b b₁ := by
    have hforM := Action.Keeps.forM (l := writes) fun w _ => keeps_call b w.call
    have hb₁ := hforM { b with calls := .begin :: b.calls } ⟨rfl, rfl⟩
    rwa [hcalls] at hb₁
  rw [Action.perform_bind_ok (Action.perform_attempt _ _), hcalls] at h
  cases r₁ with
  | error e =>
      cases h
      exact ⟨hkept.2, Or.inr ⟨e, rfl, hkept.1⟩⟩
  | ok u =>
      rcases hcommit : (call .commit).perform b₁ with ⟨r₂, b₂⟩
      have hkept₂ : Alike b b₂ := by
        have hb₂ := keeps_call b .commit b₁ hkept
        rwa [hcommit] at hb₂
      cases r₂ with
      | error e =>
          change (call .commit >>= _).perform b₁ = _ at h
          rw [Action.perform_bind_error hcommit] at h
          cases h
          exact ⟨hkept₂.2, Or.inr ⟨e, rfl, hkept₂.1⟩⟩
      | ok u =>
          change (call .commit >>= _).perform b₁ = _ at h
          rw [Action.perform_bind_ok hcommit] at h
          cases h
          refine ⟨?_, Or.inl ⟨rfl, ?_⟩⟩
          · rw [faults_applyAll, hkept₂.2]
          · rw [stores_applyAll, hkept₂.1]

/-!
## What a store has after some writes
-/

def storeAfter (writes : List StoreChange) (m : Option RowMap) : Option RowMap :=
  writes.foldl StoreChange.result m

theorem storeAfter_some (writes : List StoreChange) (m : RowMap) :
    storeAfter writes (some m) = some ((storeAfter writes (some m)).getD {}) := by
  unfold storeAfter
  induction writes generalizing m with
  | nil => rfl
  | cons w rest ih =>
      cases w with
      | put name rows => exact ih _
      | remove name ids => exact ih _
      | clear name => exact ih _

variable {stores : SortedMap String RowMap} {name : String}

theorem storesAfter_cons (stores : SortedMap String RowMap) (w : StoreChange)
    (rest : List StoreChange) :
    storesAfter stores (w :: rest) =
      storesAfter (({ stores := stores } : Backstore).apply w).stores rest :=
  stores_applyAll (({ stores := stores } : Backstore).apply w) rest

theorem ordered_apply (h : stores.Ordered) (w : StoreChange) :
    (({ stores := stores } : Backstore).apply w).stores.Ordered := by
  cases w with
  | put name rows => exact h.insert _ _
  | clear name => exact h.insert _ _
  | remove name ids =>
      unfold apply
      dsimp only
      cases stores.get? name with
      | none => exact h
      | some m => exact h.insert _ _

theorem get?_apply (h : stores.Ordered) (w : StoreChange) (name : String) :
    (({ stores := stores } : Backstore).apply w).stores.get? name =
      if w.store = name then w.result (stores.get? name) else stores.get? name := by
  cases w with
  | put name' rows =>
      change (stores.insert name' _).get? name = if name' = name then _ else _
      rw [SortedMap.get?_insert h]
      by_cases heq : name' = name
      · rw [if_pos heq, if_pos heq.symm, heq]
        rfl
      · rw [if_neg heq, if_neg fun h => heq h.symm]
  | clear name' =>
      change (stores.insert name' _).get? name = if name' = name then _ else _
      rw [SortedMap.get?_insert h]
      by_cases heq : name' = name
      · rw [if_pos heq, if_pos heq.symm]
        rfl
      · rw [if_neg heq, if_neg fun h => heq h.symm]
  | remove name' ids =>
      change _ = if name' = name then _ else _
      unfold apply
      dsimp only
      cases hget : stores.get? name' with
      | none =>
          by_cases heq : name' = name
          · rw [if_pos heq, ← heq, hget]
            rfl
          · rw [if_neg heq]
      | some m =>
          dsimp only
          rw [SortedMap.get?_insert h]
          by_cases heq : name' = name
          · rw [if_pos heq, if_pos heq.symm, ← heq, hget]
            rfl
          · rw [if_neg heq, if_neg fun h => heq h.symm]

theorem ordered_storesAfter (h : stores.Ordered) (writes : List StoreChange) :
    (storesAfter stores writes).Ordered := by
  induction writes generalizing stores with
  | nil => exact h
  | cons w rest ih =>
      rw [storesAfter_cons]
      exact ih (ordered_apply h w)

theorem get?_storesAfter (h : stores.Ordered) (writes : List StoreChange) (name : String) :
    (storesAfter stores writes).get? name =
      storeAfter (writes.filter fun w => w.store == name) (stores.get? name) := by
  induction writes generalizing stores with
  | nil => rfl
  | cons w rest ih =>
      rw [storesAfter_cons, ih (ordered_apply h w), get?_apply h]
      by_cases hstore : w.store = name
      · rw [if_pos hstore, List.filter_cons_of_pos (by simpa using hstore)]
        rfl
      · rw [if_neg hstore, List.filter_cons_of_neg (by simpa using hstore)]

end Backstore

end RelationalDb
