import Mathlib
import RelationalDb.Proofs.Database.Isolation

/-!
# Locks and the ends of transactions

Every lock is held by a transaction that may write and goes on, so a transaction gives its
locks back in whichever way it ends.  One that has ended stays as it is until it is dropped,
takes no further request, and its outcome tells how it ended.
-/

namespace RelationalDb

/-- The outcome suits the phase.  A transaction that only reads has succeeded from the start. -/
def Transaction.Settled (t : Transaction) : Prop :=
  match t.work.mode, t.work.phase with
  | .readOnly, _ => t.outcome = some (.ok ())
  | .readWrite, .active => t.outcome = none
  | .readWrite, .ended .committed => t.outcome = some (.ok ())
  | .readWrite, .ended .aborted => ∃ e, t.outcome = some (.error e)

theorem Transaction.Settled.outcome_iff {t : Transaction} (h : t.Settled)
    (hmode : t.work.mode = .readWrite) :
    t.outcome = some (.ok ()) ↔ t.work.phase = .ended .committed := by
  unfold Settled at h
  rw [hmode] at h
  cases hphase : t.work.phase with
  | active =>
      rw [hphase] at h
      simp [h]
  | ended ending =>
      cases ending with
      | committed =>
          rw [hphase] at h
          simp [h]
      | aborted =>
          rw [hphase] at h
          rcases h with ⟨e, he⟩
          simp [he]

theorem Transaction.Settled.settled {t : Transaction} (h : t.Settled)
    (hactive : t.work.phase = .active) (r : Outcome Unit) : (Session.settled t r).Settled := by
  rcases t with ⟨⟨number, mode, journal, phase⟩, outcome⟩
  cases hactive
  cases mode with
  | readOnly =>
      cases (show outcome = some (.ok ()) from h)
      exact rfl
  | readWrite =>
      cases (show outcome = none from h)
      cases r with
      | ok u => exact rfl
      | error e => exact ⟨e, rfl⟩

namespace Database

/-- Locks are held by transactions that may write and go on, and every transaction is settled. -/
structure Orderly (d : Database) : Prop where
  locked : ∀ {table : String} {id : Nat}, d.locks.holder? table = some id →
    ∃ t, d.transactions.get? id = some t ∧ t.work.mode = .readWrite ∧ t.work.phase = .active
  settled : ∀ {id : Nat} {t : Transaction}, d.transactions.get? id = some t → t.Settled

/-- What may have become of the transactions in the meantime: new ones have numbers of their own,
and those that had ended are as they were, unless they are gone. -/
structure Leads (d d' : Database) : Prop where
  next_le : d.nextTransaction ≤ d'.nextTransaction
  known : ∀ {id : Nat} {t' : Transaction}, id < d.nextTransaction →
    d'.transactions.get? id = some t' →
      ∃ t, d.transactions.get? id = some t ∧ (t.work.phase = .active ∨ t' = t)

/-- A consistent and orderly database that an earlier one leads to. -/
structure Managed (waiting : SortedMap Nat Journal) (x d : Database) : Prop where
  consistent : d.Consistent waiting
  orderly : d.Orderly
  leads : x.Leads d

variable {waiting : SortedMap Nat Journal} {x d d' : Database} {id : Nat} {t t' : Transaction}

theorem Leads.refl (d : Database) : d.Leads d where
  next_le := Nat.le_refl _
  known := by
    intro id t' _ ht'
    exact ⟨t', ht', Or.inr rfl⟩

theorem Fresh.orderly (h : d.Fresh) : d.Orderly where
  locked := by
    intro table id hid
    rw [h.locks] at hid
    cases hid
  settled := by
    intro id t ht
    rw [h.transactions] at ht
    cases ht

/-!
## Changes of one transaction
-/

theorem Leads.put (h : x.Leads d) (hordered : d.transactions.Ordered) (hid : t'.work.id = id)
    (ht : d.transactions.get? id = some t) (hactive : t.work.phase = .active) :
    x.Leads (d.putTransaction t') where
  next_le := h.next_le
  known := by
    intro i u hi hu
    change (d.transactions.insert t'.work.id t').get? i = some u at hu
    rw [SortedMap.get?_insert hordered, hid] at hu
    split at hu
    · next heq =>
        rw [heq] at hi ⊢
        rcases h.known hi ht with ⟨t₀, ht₀, hactive₀ | hsame⟩
        · exact ⟨t₀, ht₀, Or.inl hactive₀⟩
        · exact ⟨t₀, ht₀, Or.inl (hsame ▸ hactive)⟩
    · exact h.known hi hu

theorem Orderly.put_going (h : d.Orderly) (hordered : d.transactions.Ordered)
    (hid : t'.work.id = id) (ht : d.transactions.get? id = some t)
    (hactive : t.work.phase = .active) (hactive' : t'.work.phase = .active)
    (hmode : t'.work.mode = t.work.mode) (houtcome : t'.outcome = t.outcome) {locks : Locks}
    {rowIds : RowIdSource}
    (hlocks : ∀ {table i}, locks.holder? table = some i →
      d.locks.holder? table = some i ∨ (i = id ∧ t.work.mode = .readWrite)) :
    (putTransaction t' { d with locks := locks, rowIds := rowIds }).Orderly where
  locked := by
    intro table i hi
    change ∃ u, (d.transactions.insert t'.work.id t').get? i = some u ∧ _
    rw [SortedMap.get?_insert hordered, hid]
    rcases hlocks hi with hheld | ⟨rfl, hwrites⟩
    · rcases h.locked hheld with ⟨u, hu, hmodeU, hactiveU⟩
      split
      · next heq =>
          rw [heq, ht] at hu
          cases hu
          exact ⟨t', rfl, hmode.trans hmodeU, hactive'⟩
      · exact ⟨u, hu, hmodeU, hactiveU⟩
    · rw [if_pos rfl]
      exact ⟨t', rfl, hmode.trans hwrites, hactive'⟩
  settled := by
    intro i u hu
    refine SortedMap.forall_insert hordered (Q := fun _ u => u.Settled) ?_ h.settled hu
    have hsettled := h.settled ht
    unfold Transaction.Settled at hsettled ⊢
    rw [hactive']
    rw [hactive] at hsettled
    rw [hmode, houtcome]
    exact hsettled

theorem Orderly.put_ended (h : d.Orderly) (hlocks : d.locks.holders.Ordered)
    (hordered : d.transactions.Ordered) (hid : t'.work.id = id) (hsettled : t'.Settled) :
    (releaseLocks id (d.putTransaction t')).Orderly where
  locked := by
    intro table i hi
    rcases (Locks.holder?_release hlocks).mp hi with ⟨hheld, hne⟩
    rcases h.locked hheld with ⟨u, hu, hgoing⟩
    refine ⟨u, ?_, hgoing⟩
    change (d.transactions.insert t'.work.id t').get? i = some u
    rw [SortedMap.get?_insert hordered, hid, if_neg hne, hu]
  settled := by
    intro i u hu
    exact SortedMap.forall_insert hordered (Q := fun _ u => u.Settled) hsettled h.settled hu

/-!
## Beginning and ending
-/

theorem managed_begin (mode : AccessMode) : Action.Keeps (Managed waiting x) (begin mode) := by
  intro d h
  constructor
  · exact (keeps_begin mode d ⟨h.consistent, rfl⟩).consistent
  · constructor
    · intro table i hi
      rcases h.orderly.locked hi with ⟨t, ht, hgoing⟩
      refine ⟨t, ?_, hgoing⟩
      change (d.transactions.insert d.nextTransaction _).get? i = some t
      rw [SortedMap.get?_insert h.consistent.orderedTransactions,
        if_neg (Nat.ne_of_lt (h.consistent.numbered ht).2), ht]
    · intro i t ht
      refine SortedMap.forall_insert h.consistent.orderedTransactions
        (Q := fun _ t => t.Settled) ?_ h.orderly.settled ht
      cases mode with
      | readOnly => exact rfl
      | readWrite => exact rfl
  · constructor
    · exact Nat.le_succ_of_le h.leads.next_le
    · intro i t hi ht
      change (d.transactions.insert d.nextTransaction _).get? i = some t at ht
      rw [SortedMap.get?_insert h.consistent.orderedTransactions,
        if_neg (Nat.ne_of_lt (Nat.lt_of_lt_of_le hi h.leads.next_le))] at ht
      exact h.leads.known hi ht

theorem managed_abortFor (hwaiting : waiting.get? id = none) (reason : Failure) :
    Action.Keeps (Managed waiting x) (abortFor reason id) := by
  intro d h
  have hconsistent := (keeps_abortFor hwaiting reason d ⟨h.consistent, rfl⟩).consistent
  rw [perform_abortFor] at hconsistent ⊢
  cases ht : d.transactions.get? id with
  | none => exact h
  | some t =>
      rw [ht] at hconsistent
      dsimp only at hconsistent ⊢
      cases hphase : t.work.phase with
      | ended ending => exact h
      | active =>
          rw [hphase] at hconsistent
          have hid := (h.consistent.numbered ht).1
          have hsettled := (h.orderly.settled ht).settled hphase (.error reason)
          constructor
          · exact hconsistent
          · exact h.orderly.put_ended h.consistent.orderedLocks h.consistent.orderedTransactions
              hid hsettled
          · have hleads : x.Leads (d.putTransaction (Session.settled t (.error reason))) :=
              h.leads.put h.consistent.orderedTransactions hid ht hphase
            exact ⟨hleads.next_le, hleads.known⟩

theorem managed_drop (hwaiting : waiting.get? id = none) :
    Action.Keeps (Managed waiting x) (drop id) := by
  intro d h
  have hconsistent := (keeps_drop hwaiting d ⟨h.consistent, rfl⟩).consistent
  rw [perform_drop] at hconsistent ⊢
  cases ht : d.transactions.get? id with
  | none => exact h
  | some t =>
      rw [ht] at hconsistent
      constructor
      · exact hconsistent
      · constructor
        · intro table i hi
          have hheld : d.locks.holder? table = some i ∧ i ≠ id := by
            dsimp only at hi
            split at hi
            · exact (Locks.holder?_release h.consistent.orderedLocks).mp hi
            · next hended =>
                refine ⟨hi, ?_⟩
                rintro rfl
                rcases h.orderly.locked hi with ⟨u, hu, _, hactive⟩
                rw [ht] at hu
                cases hu
                exact hended (by simp [UnitOfWork.isActive, hactive])
          rcases h.orderly.locked hheld.1 with ⟨u, hu, hgoing⟩
          refine ⟨u, ?_, hgoing⟩
          change (d.transactions.erase id).get? i = some u
          rw [SortedMap.get?_erase h.consistent.orderedTransactions, if_neg hheld.2, hu]
        · intro i u hu
          exact SortedMap.forall_erase h.consistent.orderedTransactions
            (Q := fun _ u => u.Settled) h.orderly.settled hu
      · constructor
        · exact h.leads.next_le
        · intro i u hi hu
          change (d.transactions.erase id).get? i = some u at hu
          rw [SortedMap.get?_erase h.consistent.orderedTransactions] at hu
          split at hu
          · cases hu
          · exact h.leads.known hi hu

/-!
## Statements
-/

theorem Managed.ran (h : Managed waiting x d) (hwaiting : waiting.get? id = none)
    (ht : d.transactions.get? id = some t) {s : Statement} {locks : Locks}
    (hok : d.accept t s = .ok locks) : Managed waiting x (d.ran t s locks) := by
  have hgoing := h.consistent.going ht hok
  rcases accept_eq_ok hok with ⟨hactive, _, htarget⟩
  constructor
  · exact h.consistent.ran hwaiting ht hok
  · unfold Database.ran
    apply h.orderly.put_going h.consistent.orderedTransactions
    · exact hgoing.id_eq
    · exact ht
    · exact hactive
    · exact hgoing.active
    · exact hgoing.mode_eq
    · rfl
    intro table i hi
    rcases htarget with ⟨_, rfl⟩ | ⟨_, _, hmode, hacquire⟩
    · exact Or.inl hi
    · rcases Locks.holder?_of_acquire hacquire h.consistent.orderedLocks hi with hheld | heq
      · exact Or.inl hheld
      · exact Or.inr ⟨heq.trans (h.consistent.numbered ht).1, hmode⟩
  · have hleads : x.Leads (d.putTransaction { t with work := _ }) :=
      h.leads.put h.consistent.orderedTransactions hgoing.id_eq ht hactive
    exact ⟨hleads.next_le, hleads.known⟩

theorem managed_attach (hwaiting : waiting.get? id = none) (s : Statement) :
    Action.Keeps (Managed waiting x) (attach id s) := by
  intro d h
  rw [perform_attach]
  split
  · exact h
  · next t ht =>
      split
      · exact h
      · next locks hok =>
          have hran := h.ran hwaiting ht hok
          split
          · exact hran
          · next f _ =>
              exact ((managed_abortFor hwaiting f).bind fun _ => Action.keeps_throw f) _ hran

/-- Why a statement is refused before it runs: it is malformed or lacks a value for a placeholder,
or it changes a table in a transaction that only reads, or one that is locked by another. -/
def Refuses (d : Database) (t : Transaction) (s : Statement) : Prop :=
  s.check ≠ .ok () ∨ ∃ table, s.target = some table ∧
    (t.work.mode = .readOnly ∨
      ∃ holder, d.locks.holder? table.name = some holder ∧ holder ≠ t.work.id)

theorem Refuses.accept {s : Statement} (h : d.Refuses t s) : ∃ e, d.accept t s = .error e := by
  cases haccept : d.accept t s with
  | error e => exact ⟨e, rfl⟩
  | ok locks =>
      exfalso
      rcases accept_eq_ok haccept with ⟨_, hcheck, hrest⟩
      rcases h with hmalformed | ⟨table, htarget, hcause⟩
      · exact hmalformed hcheck
      · rcases hrest with ⟨hnone, _⟩ | ⟨table', htarget', hmode, hacquire⟩
        · rw [htarget] at hnone
          cases hnone
        · rw [htarget] at htarget'
          cases htarget'
          rcases hcause with hreads | ⟨holder, hholder, hne⟩
          · rw [hreads] at hmode
            cases hmode
          · rw [Locks.acquire_of_other hholder hne] at hacquire
            cases hacquire

theorem attach_error {s : Statement} {e : Failure} (ht : d.transactions.get? id = some t)
    (h : d.accept t s = .error e) : (attach id s).perform d = (.error e, d) := by
  rw [perform_attach, ht]
  dsimp only
  rw [h]

theorem accept_of_ended {ending : Ending} (h : t.work.phase = .ended ending) (s : Statement) :
    d.accept t s = .error (.operation (.transactionInactive t.work.id)) := by
  unfold accept UnitOfWork.isActive
  rw [h]
  rfl

end Database

/-!
## Commits
-/

namespace Session

open Database (Managed)

variable {waiting : SortedMap Nat Journal} {x : Database} {s s' : Session} {id : Nat} {j : Journal}

def Manages (waiting : SortedMap Nat Journal) (x : Database) (s : Session) : Prop :=
  Managed waiting x s.database

theorem keeps_onDatabase {α : Type} {a : Action Database α}
    (ha : Action.Keeps (Managed waiting x) a) :
    Action.Keeps (Manages waiting x) (onDatabase a) :=
  ha.onPart (fun _ h => h) fun _ _ _ h => h

theorem Manages.submit_ok (h : s.Manages waiting x) (hw : waiting.Ordered)
    (hwaiting : waiting.get? id = none) (hok : (submit id).perform s = (.ok j, s')) :
    s'.Manages (waiting.insert id j) x := by
  have hconsistent := (Session.submit_ok h.consistent hw hwaiting hok).1
  rw [perform_submit] at hok
  split at hok
  · cases hok
  · next t ht =>
      split at hok
      · cases hok
      · next hactive =>
          cases hok
          have hid := (h.consistent.numbered ht).1
          have horderly : (s.database.putTransaction (handedOver t)).Orderly := by
            apply h.orderly.put_going h.consistent.orderedTransactions
            · exact hid
            · exact ht
            · exact hactive
            · exact hactive
            · rfl
            · rfl
            · exact fun hi => Or.inl hi
          exact
            { consistent := hconsistent
              orderly := horderly
              leads := h.leads.put h.consistent.orderedTransactions hid ht hactive }

theorem Manages.settle (h : s.Manages waiting x) (hw : waiting.Ordered)
    (hwaits : waiting.get? id = some j) :
    ((settle id j).perform s).2.Manages (waiting.erase id) x := by
  rcases h.consistent.waits hwaits with ⟨_, t, ht, hactive, _⟩
  rcases hflush : (flush j).perform s with ⟨r, s'⟩
  rcases settle_spec h.consistent hw hwaits hflush with ⟨s'', hsettle, hconsistent, _⟩
  have hperform := perform_settle ht hactive hflush
  rw [hsettle] at hperform ⊢
  cases hperform
  have hid := (h.consistent.numbered ht).1
  have horderly : (Database.releaseLocks id (s.database.putTransaction (settled t r))).Orderly :=
    h.orderly.put_ended h.consistent.orderedLocks h.consistent.orderedTransactions hid
      ((h.orderly.settled ht).settled hactive r)
  have hleads : x.Leads (s.database.putTransaction (settled t r)) :=
    h.leads.put h.consistent.orderedTransactions hid ht hactive
  rcases flush_cases hflush with ⟨_, _, rfl⟩ | ⟨b, _, _, rfl⟩ | ⟨e, b, _, _, rfl⟩
  · exact ⟨hconsistent, ⟨horderly.locked, horderly.settled⟩, ⟨hleads.next_le, hleads.known⟩⟩
  · exact ⟨hconsistent, ⟨horderly.locked, horderly.settled⟩, ⟨hleads.next_le, hleads.known⟩⟩
  · exact ⟨hconsistent, ⟨horderly.locked, horderly.settled⟩, ⟨hleads.next_le, hleads.known⟩⟩

theorem Manages.fewer {waiting' : SortedMap Nat Journal} (h : s.Manages waiting x)
    (hfewer : ∀ {i j}, waiting'.get? i = some j → waiting.get? i = some j) :
    s.Manages waiting' x :=
  ⟨h.consistent.fewer hfewer, h.orderly, h.leads⟩

theorem keeps_commit (hw : waiting.Ordered) (hwaiting : waiting.get? id = none) :
    Action.Keeps (Manages waiting x) (commit id) := by
  intro s h
  rw [perform_commit id s h.consistent.orderedTransactions fun t ht =>
    (h.consistent.numbered ht).1]
  rcases hsubmit : (submit id).perform s with ⟨r, s₁⟩
  cases r with
  | error e =>
      rw [Action.perform_bind_error hsubmit, eq_of_submit_error hsubmit]
      exact h
  | ok j =>
      rw [Action.perform_bind_ok hsubmit]
      have hwaits : (waiting.insert id j).get? id = some j := by
        rw [SortedMap.get?_insert hw, if_pos rfl]
      apply ((h.submit_ok hw hwaiting hsubmit).settle (hw.insert _ _) hwaits).fewer
      intro i j' hi
      have hne := Database.ne_of_notWaiting hwaiting hi
      rw [SortedMap.get?_erase (hw.insert _ _), SortedMap.get?_insert hw, if_neg hne, if_neg hne]
      exact hi

theorem keeps_execute (hw : waiting.Ordered) (hwaiting : waiting.get? id = none)
    (statements : List Statement) : Action.Keeps (Manages waiting x) (execute id statements) := by
  have hattached := keeps_onDatabase (x := x)
    (Database.keeps_attachAll (Database.managed_attach hwaiting) statements)
  unfold execute
  refine hattached.attempt.bind fun r => ?_
  cases r with
  | ok results => exact (keeps_commit hw hwaiting).bind fun _ => Action.keeps_pure _
  | error f =>
      have haborted := keeps_onDatabase (x := x) (Database.managed_abortFor hwaiting f)
      exact haborted.attempt.bind fun _ => Action.keeps_throw f

theorem keeps_executeAlone (hw : waiting.Ordered) (st : Statement) :
    Action.Keeps (Manages waiting x) (executeAlone st) := by
  intro s h
  unfold executeAlone
  cases hcheck : st.check with
  | error e => exact h
  | ok u =>
      have hbegun := keeps_onDatabase (Database.managed_begin st.mode) s h
      have hwaiting := h.consistent.not_waiting_next
      rw [perform_begin] at hbegun
      rw [Action.perform_bind_ok (Action.perform_ofOutcome (.ok u) s),
        Action.perform_bind_ok (perform_begin st.mode s)]
      have hrun := (keeps_onDatabase (x := x) (Database.managed_attach hwaiting st)).bind fun rows =>
        (keeps_commit hw hwaiting).bind fun _ => Action.keeps_pure rows
      have hdrop := keeps_onDatabase (x := x) (Database.managed_drop hwaiting)
      exact (hrun.attempt.bind fun r => hdrop.bind fun _ => Action.keeps_ofOutcome r) _ hbegun

end Session

/-!
## Requests
-/

theorem Request.keeps_action {waiting : SortedMap Nat Journal} {x : Database} (r : Request)
    (hw : waiting.Ordered) (hwaiting : ∀ id, r.transaction? = some id → waiting.get? id = none) :
    Action.Keeps (Session.Manages waiting x) r.action := by
  cases r with
  | begin mode =>
      exact (Session.keeps_onDatabase (Database.managed_begin mode)).bind fun _ =>
        Action.keeps_pure ()
  | attach id s =>
      exact (Session.keeps_onDatabase (Database.managed_attach (hwaiting id rfl) s)).bind fun _ =>
        Action.keeps_pure ()
  | execute id statements =>
      exact (Session.keeps_execute hw (hwaiting id rfl) statements).bind fun _ =>
        Action.keeps_pure ()
  | executeAlone s => exact (Session.keeps_executeAlone hw s).bind fun _ => Action.keeps_pure ()
  | commit id => exact Session.keeps_commit hw (hwaiting id rfl)
  | abort id => exact Session.keeps_onDatabase (Database.managed_abortFor (hwaiting id rfl) _)
  | drop id =>
      exact (Session.keeps_onDatabase (Database.managed_drop (hwaiting id rfl))).bind fun _ =>
        Action.keeps_pure ()
  | failAt call message => exact fun _ h => h
  | repair => exact fun _ h => h

/-!
## Requests in transactions that have ended
-/

namespace Session

variable {waiting : SortedMap Nat Journal} {s : Session} {id : Nat} {t : Transaction}
  {ending : Ending}

theorem attach_of_ended (ht : s.database.transactions.get? id = some t)
    (hended : t.work.phase = .ended ending) (st : Statement) :
    (onDatabase (Database.attach id st)).perform s =
      (.error (.operation (.transactionInactive t.work.id)), s) := by
  rw [perform_onDatabase, Database.attach_error ht (Database.accept_of_ended hended st)]

theorem abortFor_of_ended (ht : s.database.transactions.get? id = some t)
    (hended : t.work.phase = .ended ending) (reason : Failure) :
    (onDatabase (Database.abortFor reason id)).perform s =
      (.error (.operation (.transactionEnded t.work.id ending)), s) := by
  rw [perform_onDatabase, Database.perform_abortFor, ht]
  dsimp only
  rw [hended]

theorem commit_of_ended (h : s.database.Consistent waiting)
    (ht : s.database.transactions.get? id = some t) (hended : t.work.phase = .ended ending) :
    (commit id).perform s = (.error (.operation (.transactionEnded t.work.id ending)), s) := by
  rw [perform_commit id s h.orderedTransactions fun t ht => (h.numbered ht).1]
  apply Action.perform_bind_error
  rw [perform_submit, ht]
  dsimp only
  rw [hended]

/-- Statements are refused with the first of them, and if there are none then with the commit. -/
theorem execute_of_ended (h : s.database.Consistent waiting)
    (ht : s.database.transactions.get? id = some t) (hended : t.work.phase = .ended ending)
    (statements : List Statement) :
    ∃ e, e.kind = .operation ∧ (execute id statements).perform s = (.error e, s) := by
  unfold execute
  rw [Action.perform_bind_ok (Action.perform_attempt _ s)]
  cases statements with
  | nil => exact ⟨_, rfl, Action.perform_bind_error (commit_of_ended h ht hended)⟩
  | cons st rest =>
      have hall : (onDatabase (attachAll id (st :: rest))).perform s =
          (.error (.operation (.transactionInactive t.work.id)), s) := by
        rw [perform_onDatabase, attachAll, Action.perform_bind_error
          (Database.attach_error ht (Database.accept_of_ended hended st))]
      rw [hall]
      dsimp only
      rw [Action.perform_bind_ok (Action.perform_attempt _ s), abortFor_of_ended ht hended]
      exact ⟨_, rfl, rfl⟩

end Session

theorem Request.perform_of_ended {waiting : SortedMap Nat Journal} {s : Session} {id : Nat}
    {t : Transaction} {ending : Ending} {r : Request} (h : s.database.Consistent waiting)
    (ht : s.database.transactions.get? id = some t) (hended : t.work.phase = .ended ending)
    (hr : r.transaction? = some id) (hdrop : r ≠ .drop id) :
    ∃ e, e.kind = .operation ∧ r.action.perform s = (.error e, s) := by
  cases r with
  | attach i st =>
      cases hr
      exact ⟨_, rfl, Action.perform_bind_error (Session.attach_of_ended ht hended st)⟩
  | execute i statements =>
      cases hr
      rcases Session.execute_of_ended h ht hended statements with ⟨e, hkind, hexecute⟩
      exact ⟨e, hkind, Action.perform_bind_error hexecute⟩
  | commit i =>
      cases hr
      exact ⟨_, rfl, Session.commit_of_ended h ht hended⟩
  | abort i =>
      cases hr
      exact ⟨_, rfl, Session.abortFor_of_ended ht hended _⟩
  | drop i =>
      cases hr
      exact absurd rfl hdrop
  | begin mode => cases hr
  | executeAlone st => cases hr
  | failAt call message => cases hr
  | repair => cases hr

namespace Service

variable {v : Service} {x : Database}

theorem managed_step (h : v.session.Manages v.waiting x) (hw : v.waiting.Ordered) (e : Event) :
    (v.step e).session.Manages (v.step e).waiting x ∧ (v.step e).waiting.Ordered := by
  cases e with
  | request r =>
      rw [step_request]
      split
      · exact ⟨h, hw⟩
      · next hblocked => exact ⟨r.keeps_action hw (not_waiting hblocked) _ h, hw⟩
  | submit id =>
      unfold step
      dsimp only
      split
      · exact ⟨h, hw⟩
      · next hnot =>
          have hwaiting : v.waiting.get? id = none :=
            SortedMap.contains_eq_false_iff.mp (by simpa using hnot)
          split
          · next j s hsubmit => exact ⟨h.submit_ok hw hwaiting hsubmit, hw.insert _ _⟩
          · next e s hsubmit =>
              rw [Session.eq_of_submit_error hsubmit]
              exact ⟨h, hw⟩
  | settle id =>
      unfold step
      dsimp only
      split
      · exact ⟨h, hw⟩
      · next j hwaits =>
          have hsettled := h.settle hw hwaits
          split
          · next s hsettle =>
              rw [hsettle] at hsettled
              exact ⟨hsettled, hw.erase _⟩
          · next e s hsettle =>
              rw [hsettle] at hsettled
              exact ⟨hsettled, hw.erase _⟩
  | withdraw id =>
      refine ⟨h.fewer ?_, hw.erase _⟩
      intro i j hi
      change (v.waiting.erase id).get? i = some j at hi
      rw [SortedMap.get?_erase hw] at hi
      split at hi
      · cases hi
      · exact hi

theorem managed_after (h : v.session.Manages v.waiting x) (hw : v.waiting.Ordered)
    (events : List Event) :
    (v.after events).session.Manages (v.after events).waiting x ∧
      (v.after events).waiting.Ordered := by
  unfold after
  induction events generalizing v with
  | nil => exact ⟨h, hw⟩
  | cons e rest ih =>
      rcases managed_step h hw e with ⟨hstep, hordered⟩
      exact ih hstep hordered

/-- After any events every lock is held by a transaction that may write and goes on, and whatever
a transaction has staged, or waits to write, is in tables whose lock it holds.  A transaction that
has ended never changes again, and every request in it fails and changes nothing.  A statement
that is refused changes nothing either.  A transaction that may write has succeeded exactly when it
is committed. -/
theorem transactions_end_once_and_release_their_locks {c : Catalog} {options : DatabaseOptions}
    {b b₁ : Backstore} {d₀ : Database}
    (hopen : (Database.load c options).perform b = (.ok d₀, b₁)) (events : List Event) :
    let v := (opened b₁ d₀).after events
    let d := v.session.database
    (∀ table id, d.locks.holder? table = some id →
      ∃ t, d.transaction id = .ok t ∧ t.work.mode = .readWrite ∧ t.work.phase = .active) ∧
    (∀ id t table, d.transaction id = .ok t → t.work.journal.Stages table →
      d.locks.holder? table = some id) ∧
    (∀ id j table, v.waiting.get? id = some j → j.Stages table →
      d.locks.holder? table = some id) ∧
    (∀ id t t' more, d.transaction id = .ok t →
      (v.after more).session.database.transaction id = .ok t' →
        t.work.phase = .active ∨ t' = t) ∧
    (∀ id t ending (r : Request), d.transaction id = .ok t → t.work.phase = .ended ending →
      r.transaction? = some id → r ≠ .drop id →
        ∃ e : Failure, e.kind = .operation ∧ r.action.perform v.session = (.error e, v.session)) ∧
    (∀ id t s, d.transaction id = .ok t → d.Refuses t s →
      ∃ e, (Request.attach id s).action.perform v.session = (.error e, v.session)) ∧
    (∀ id t, d.transaction id = .ok t → t.work.mode = .readWrite →
      (t.outcome = some (.ok ()) ↔ t.work.phase = .ended .committed) ∧
        ∀ r d', (Database.drop id).perform d = (.ok r, d') →
          (r = .ok () ↔ t.work.phase = .ended .committed)) := by
  intro v d
  have hfresh := Database.fresh_load hopen
  have hopened : (opened b₁ d₀).session.Manages (opened b₁ d₀).waiting d₀ :=
    ⟨hfresh.consistent, hfresh.orderly, Database.Leads.refl d₀⟩
  rcases managed_after hopened SortedMap.ordered_empty events with ⟨hv, hwaiting⟩
  have hd : Database.Managed v.waiting d₀ d := hv
  refine ⟨?_, ?_, ?_, ?_, ?_, ?_, ?_⟩
  · intro table id hheld
    rcases hd.orderly.locked hheld with ⟨t, ht, hgoing⟩
    exact ⟨t, Database.transaction_eq_ok_iff.mpr ht, hgoing⟩
  · intro id t table ht hstaged
    exact (hd.consistent.guarded (Database.transaction_eq_ok_iff.mp ht)).within hstaged
  · intro id j table hwaits hstaged
    exact (hd.consistent.waits hwaits).1.within hstaged
  · intro id t t' more ht ht'
    have hleads : Database.Managed v.waiting d d :=
      ⟨hd.consistent, hd.orderly, Database.Leads.refl d⟩
    have hmore := (managed_after (v := v) (x := d) hleads hwaiting more).1.leads
    rw [Database.transaction_eq_ok_iff] at ht ht'
    rcases hmore.known (hd.consistent.numbered ht).2 ht' with ⟨t₁, ht₁, hsame⟩
    rw [ht] at ht₁
    cases ht₁
    exact hsame
  · intro id t ending r ht hended hr hdrop
    exact Request.perform_of_ended hd.consistent (Database.transaction_eq_ok_iff.mp ht) hended hr
      hdrop
  · intro id t s ht hrefuses
    rcases hrefuses.accept with ⟨e, he⟩
    refine ⟨e, Action.perform_bind_error ?_⟩
    rw [Session.perform_onDatabase]
    rw [Database.attach_error (Database.transaction_eq_ok_iff.mp ht) he]
  · intro id t ht hmode
    rw [Database.transaction_eq_ok_iff] at ht
    have houtcome := (hd.orderly.settled ht).outcome_iff hmode
    refine ⟨houtcome, ?_⟩
    intro r d' hdrop
    rw [Database.perform_drop, ht] at hdrop
    cases hdrop
    rw [← houtcome]
    cases t.outcome with
    | none => simp
    | some r => simp

set_option maxRecDepth 10000 in
theorem committed_transaction_takes_no_statement :
    ∃ (d : Database) (b : Backstore), (Database.load .shop {}).perform {} = (.ok d, b) ∧
      let v := (opened b d).after
        [.request (.begin .readWrite),
          .request (.attach 1 (.insert { table := .items, rows := [[.int64 7, .float64 ⟨0⟩]] })),
          .submit 1, .request (.begin .readOnly), .settle 1]
      ∃ e : Failure, e.kind = .operation ∧
        (Request.attach 1 (.select { tables := [.items] })).action.perform v.session =
          (.error e, v.session) := by
  refine ⟨_, _, rfl, ?_⟩
  have h := @transactions_end_once_and_release_their_locks .shop {} {} _ _ rfl
    [.request (.begin .readWrite),
      .request (.attach 1 (.insert { table := .items, rows := [[.int64 7, .float64 ⟨0⟩]] })),
      .submit 1, .request (.begin .readOnly), .settle 1]
  exact h.2.2.2.2.1 1 _ .committed _ rfl rfl rfl nofun

end Service

end RelationalDb
