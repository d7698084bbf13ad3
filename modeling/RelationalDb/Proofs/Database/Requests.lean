import Mathlib
import RelationalDb.Proofs.Database.Backstores
import RelationalDb.Proofs.Database.Commits

/-!
# Requests to an open database

Any number of transactions may be going on and their requests come in any order.  A commit
is answered at once, or it is submitted first and settled later; meanwhile its transaction
takes no request.  What every event may do to the stores and to the committed rows is one
of three moves, and the history has the journals that were committed, in their order.
-/

namespace RelationalDb

def Database.journalOf (d : Database) (id : Nat) : Journal :=
  ((d.transactions.get? id).map (·.work.journal)).getD {}

/-- What is asked of an open database, and what befalls its backstore. -/
inductive Request
  | begin (mode : AccessMode)
  | attach (id : Nat) (s : Statement)
  | execute (id : Nat) (statements : List Statement)
  | executeAlone (s : Statement)
  | commit (id : Nat)
  | abort (id : Nat)
  | drop (id : Nat)
  | failAt (call : BackstoreCall) (message : String)
  | repair

namespace Request

def transaction? : Request → Option Nat
  | attach id _ | execute id _ | commit id | abort id | drop id => some id
  | _ => none

def action : Request → Action Session Unit
  | begin mode => do
      let _ ← Session.onDatabase (Database.begin mode)
  | attach id s => do
      let _ ← Session.onDatabase (Database.attach id s)
  | execute id statements => do
      let _ ← Session.execute id statements
  | executeAlone s => do
      let _ ← Session.executeAlone s
  | commit id => Session.commit id
  | abort id => Session.onDatabase (Database.abort id)
  | drop id => do
      let _ ← Session.onDatabase (Database.drop id)
  | failAt call message => Session.onBackstore (modify fun b => b.failAt call message)
  | repair => Session.onBackstore (modify fun b => b.repair)

def journal? (d : Database) : Request → Option Journal
  | execute id statements =>
      some (((Session.attachAll id statements).perform d).2.journalOf id)
  | executeAlone s =>
      some (((Database.attach d.nextTransaction s).perform
        ((Database.begin s.mode).perform d).2).2.journalOf d.nextTransaction)
  | commit id => some (d.journalOf id)
  | _ => none

def committed (r : Request) (d : Database) (outcome : Outcome Unit) : List Journal :=
  match outcome with
  | .ok () => (r.journal? d).toList
  | .error _ => []

end Request

/-- What happens to a service: a request that is answered at once, a commit that is submitted, is
settled, or is waited for no more. -/
inductive Event
  | request (r : Request)
  | submit (id : Nat)
  | settle (id : Nat)
  | withdraw (id : Nat)

/-- A session, the journals that wait to be written, and those that were committed. -/
structure Service where
  session : Session
  waiting : SortedMap Nat Journal := {}
  history : List Journal := []

namespace Service

/-- The service after an event.  A transaction whose journal waits takes no request. -/
def step (v : Service) : Event → Service
  | .request r =>
      if r.transaction?.any v.waiting.contains then v
      else
        let (outcome, session) := r.action.perform v.session
        { v with
          session := session
          history := v.history ++ r.committed v.session.database outcome }
  | .submit id =>
      if v.waiting.contains id then v
      else
        match (Session.submit id).perform v.session with
        | (.ok j, session) => { v with session := session, waiting := v.waiting.insert id j }
        | (.error _, session) => { v with session := session }
  | .settle id =>
      match v.waiting.get? id with
      | none => v
      | some j =>
          match (Session.settle id j).perform v.session with
          | (.ok (), session) =>
              { session := session, waiting := v.waiting.erase id, history := v.history ++ [j] }
          | (.error _, session) =>
              { v with session := session, waiting := v.waiting.erase id }
  | .withdraw id => { v with waiting := v.waiting.erase id }

def after (v : Service) (events : List Event) : Service :=
  events.foldl step v

end Service

/-!
## Moves
-/

/-- The stores of the backstore and what a commit may change of the database. -/
structure Ground where
  stores : SortedMap String RowMap
  base : Database.Base

def Session.ground (s : Session) : Ground :=
  { stores := s.backstore.stores, base := s.database.base }

/-- How an event changes the ground, with the journals that it commits: not at all, by a journal
without net changes, or by a journal that is written and installed. -/
inductive Ground.Moves (g : Ground) : Ground → List Journal → Prop
  | quiet : Moves g g []
  | empty (j : Journal) (htracks : j.Tracks g.base.committed) (hempty : j.isEmpty = true) :
      Moves g g [j]
  | written (j : Journal) (htracks : j.Tracks g.base.committed) :
      Moves g
        { stores := Backstore.storesAfter g.stores (j.writes g.base.options)
          base := { g.base with committed := j.install g.base.committed } } [j]

namespace Session

variable {s s' s'' : Session} {j : Journal} {id : Nat} {r : Outcome Unit}
  {waiting : SortedMap Nat Journal}

def committedBy {α : Type} (r : Outcome α) (j : Journal) : List Journal :=
  match r with
  | .ok _ => [j]
  | .error _ => []

theorem committedBy_map {α β : Type} (f : α → β) (r : Outcome α) (j : Journal) :
    committedBy (r.map f) j = committedBy r j := by
  cases r with
  | ok a => rfl
  | error e => rfl

theorem moves_flush (h : (flush j).perform s = (r, s')) (hj : j.Tracks s.database.committed) :
    s.ground.Moves s'.ground (committedBy r j) := by
  rcases flush_cases h with ⟨hempty, rfl, rfl⟩ | ⟨b, hwrite, rfl, rfl⟩ | ⟨e, b, hwrite, rfl, rfl⟩
  · exact Ground.Moves.empty j hj hempty
  · rcases (Backstore.write_cases hwrite).2 with ⟨_, hstores⟩ | ⟨e, he, _⟩
    · have hmove := Ground.Moves.written (g := s.ground) j hj
      unfold ground at hmove ⊢
      dsimp only at hmove ⊢
      rw [hstores]
      exact hmove
    · cases he
  · rcases (Backstore.write_cases hwrite).2 with ⟨he, _⟩ | ⟨e', _, hstores⟩
    · cases he
    · have hmove := Ground.Moves.quiet (g := s.ground)
      unfold ground at hmove ⊢
      dsimp only at hmove ⊢
      rw [hstores]
      exact hmove

theorem ground_eq (hbackstore : s'.backstore = s.backstore)
    (hbase : s'.database.base = s.database.base) : s'.ground = s.ground := by
  unfold ground
  rw [hbackstore, hbase]

/-- The session is consistent after a move that commits the given journals. -/
structure Serves (waiting : SortedMap Nat Journal) (s s' : Session) (journals : List Journal) :
    Prop where
  consistent : s'.database.Consistent waiting
  moves : s.ground.Moves s'.ground journals

theorem Serves.of_ground {journals : List Journal} (h : Serves waiting s' s'' journals)
    (hground : s'.ground = s.ground) : Serves waiting s s'' journals where
  consistent := h.consistent
  moves := by
    rw [← hground]
    exact h.moves

theorem serves_quiet (h : s'.database.Consistent waiting) (hground : s'.ground = s.ground) :
    Serves waiting s s' [] where
  consistent := h
  moves := by
    rw [hground]
    exact Ground.Moves.quiet

theorem perform_onDatabase {α : Type} (a : Action Database α) (s : Session) :
    (onDatabase a).perform s =
      ((a.perform s.database).1, { s with database := (a.perform s.database).2 }) := rfl

theorem perform_begin (mode : AccessMode) (s : Session) :
    (onDatabase (Database.begin mode)).perform s =
      (.ok s.database.nextTransaction,
        { s with database := ((Database.begin mode).perform s.database).2 }) := rfl

theorem isSome_begin (h : s.database.transactions.Ordered) (mode : AccessMode) :
    (((Database.begin mode).perform s.database).2.transactions.get?
      s.database.nextTransaction).isSome = true := by
  change ((s.database.transactions.insert s.database.nextTransaction _).get? _).isSome = true
  rw [SortedMap.get?_insert h, if_pos rfl]
  rfl

theorem onDatabase_spec {α : Type} {a : Action Database α}
    (ha : ∀ x, Action.Keeps (Database.Stays waiting x) a) (h : s.database.Consistent waiting) :
    ((onDatabase a).perform s).2.database.Consistent waiting ∧
      ((onDatabase a).perform s).2.ground = s.ground := by
  have hstays := ha s.database.base s.database ⟨h, rfl⟩
  exact ⟨hstays.consistent, ground_eq rfl hstays.base_eq⟩

theorem serves_commit (h : s.database.Consistent waiting) (hw : waiting.Ordered)
    (hwaiting : waiting.get? id = none) :
    Serves waiting s ((commit id).perform s).2
      (committedBy ((commit id).perform s).1 (s.database.journalOf id)) := by
  rcases commit_spec h hw hwaiting with ⟨e, hcommit⟩ |
    ⟨t, r, s', s'', ht, hflush, hcommit, hconsistent, hbackstore, hbase, _⟩
  · rw [hcommit]
    exact serves_quiet h rfl
  · rw [hcommit]
    have hjournal : s.database.journalOf id = t.work.journal := by
      unfold Database.journalOf
      rw [ht]
      rfl
    refine ⟨hconsistent, ?_⟩
    dsimp only
    rw [ground_eq hbackstore hbase, hjournal]
    exact moves_flush hflush (h.guarded ht).toTracks

theorem serves_execute (h : s.database.Consistent waiting) (hw : waiting.Ordered)
    (hwaiting : waiting.get? id = none) (statements : List Statement) :
    Serves waiting s ((execute id statements).perform s).2
      (committedBy ((execute id statements).perform s).1
        (((attachAll id statements).perform s.database).2.journalOf id)) := by
  have hattached := onDatabase_spec
    (fun x => Database.keeps_attachAll (Database.keeps_attach hwaiting) statements) h
  rw [perform_onDatabase] at hattached
  rcases hall : (attachAll id statements).perform s.database with ⟨r, d⟩
  rw [hall] at hattached
  unfold execute
  rw [Action.perform_bind_ok (Action.perform_attempt _ s), perform_onDatabase, hall]
  cases r with
  | error f =>
      have haborted := onDatabase_spec (fun x => Database.keeps_abortFor hwaiting f) hattached.1
      exact serves_quiet haborted.1 (haborted.2.trans hattached.2)
  | ok results =>
      have hcommitted := serves_commit hattached.1 hw hwaiting
      dsimp only
      rw [Action.perform_bind_pure (commit id) fun _ => results, committedBy_map]
      exact hcommitted.of_ground hattached.2

theorem Serves.then_quiet {journals : List Journal} (h : Serves waiting s s' journals)
    (hconsistent : s''.database.Consistent waiting) (hground : s''.ground = s'.ground) :
    Serves waiting s s'' journals where
  consistent := hconsistent
  moves := by
    rw [hground]
    exact h.moves

theorem isSome_commit {i : Nat} (h : s.database.Consistent waiting) (hw : waiting.Ordered)
    (hwaiting : waiting.get? i = none) (hi : (s.database.transactions.get? i).isSome = true) :
    (((commit i).perform s).2.database.transactions.get? i).isSome = true := by
  rcases commit_spec h hw hwaiting with ⟨e, hcommit⟩ |
    ⟨t, r, s', s'', _, _, hcommit, _, _, _, hsome⟩
  · rw [hcommit]
    exact hi
  · rw [hcommit]
    exact hsome

theorem serves_attach_commit (h : s.database.Consistent waiting) (hw : waiting.Ordered)
    (hwaiting : waiting.get? id = none) (hid : (s.database.transactions.get? id).isSome = true)
    (st : Statement) {r : Outcome ResultSet}
    (hrun : (do
      let rows ← onDatabase (Database.attach id st)
      commit id
      return rows : Action Session ResultSet).perform s = (r, s')) :
    Serves waiting s s'
        (committedBy r (((Database.attach id st).perform s.database).2.journalOf id)) ∧
      (s'.database.transactions.get? id).isSome = true := by
  have hattached := onDatabase_spec (fun x => Database.keeps_attach hwaiting st) h
  have hsome := Database.isSome_attach h.orderedTransactions hid id st
  have hperform := perform_onDatabase (Database.attach id st) s
  rcases hattach : (Database.attach id st).perform s.database with ⟨ra, d⟩
  rw [hattach] at hperform hsome
  rw [hperform] at hattached
  cases ra with
  | error f =>
      rw [Action.perform_bind_error hperform] at hrun
      cases hrun
      exact ⟨serves_quiet hattached.1 hattached.2, hsome⟩
  | ok rows =>
      have hcommitted := serves_commit hattached.1 hw hwaiting
      have hkept := isSome_commit hattached.1 hw hwaiting hsome
      rw [Action.perform_bind_ok hperform, Action.perform_bind_pure (commit id) fun _ => rows]
        at hrun
      cases hrun
      rw [committedBy_map]
      exact ⟨hcommitted.of_ground hattached.2, hkept⟩

theorem serves_executeAlone (h : s.database.Consistent waiting) (hw : waiting.Ordered)
    (st : Statement) :
    Serves waiting s ((executeAlone st).perform s).2
      (committedBy ((executeAlone st).perform s).1
        (((Database.attach s.database.nextTransaction st).perform
          ((Database.begin st.mode).perform s.database).2).2.journalOf
            s.database.nextTransaction)) := by
  unfold executeAlone
  cases hcheck : st.check with
  | error e =>
      rw [Action.perform_bind_error (Action.perform_ofOutcome (.error e) s)]
      exact serves_quiet h rfl
  | ok u =>
      rw [Action.perform_bind_ok (Action.perform_ofOutcome (.ok u) s)]
      have hbegun := onDatabase_spec (fun x => Database.keeps_begin st.mode) h
      rw [perform_begin] at hbegun
      have hsome := isSome_begin h.orderedTransactions st.mode
      have hwaiting := h.not_waiting_next
      rw [Action.perform_bind_ok (perform_begin st.mode s),
        Action.perform_bind_ok (Action.perform_attempt _ _)]
      rcases hrun : (do
          let rows ← onDatabase (Database.attach s.database.nextTransaction st)
          commit s.database.nextTransaction
          return rows : Action Session ResultSet).perform
            { s with database := ((Database.begin st.mode).perform s.database).2 } with ⟨r, s₁⟩
      rcases serves_attach_commit hbegun.1 hw hwaiting hsome st hrun with ⟨hserves, hkept⟩
      have hdropped := onDatabase_spec (fun x => Database.keeps_drop hwaiting) hserves.consistent
      have hdrop : ∃ o, ((Database.drop s.database.nextTransaction).perform s₁.database).1 = .ok o := by
        rw [Database.perform_drop]
        rcases Option.isSome_iff_exists.mp hkept with ⟨t, ht⟩
        rw [ht]
        exact ⟨_, rfl⟩
      rcases hdrop with ⟨o, ho⟩
      have hperform := perform_onDatabase (Database.drop s.database.nextTransaction) s₁
      rw [ho] at hperform
      rw [hperform] at hdropped
      dsimp only
      rw [Action.perform_bind_ok hperform]
      exact (hserves.of_ground hbegun.2).then_quiet hdropped.1 hdropped.2

end Session

/-!
## Events
-/

theorem Action.perform_discard {σ α : Type} (a : Action σ α) (s : σ) :
    (a >>= fun _ => pure ()).perform s = ((a.perform s).1.map fun _ => (), (a.perform s).2) := by
  exact Action.perform_bind_pure a (fun _ => ()) s

theorem Request.committed_none {r : Request} {d : Database} (h : r.journal? d = none)
    (outcome : Outcome Unit) : r.committed d outcome = [] := by
  unfold committed
  rw [h]
  cases outcome with
  | ok u => rfl
  | error e => rfl

theorem Request.committed_some {r : Request} {d : Database} {j : Journal} {α : Type}
    (h : r.journal? d = some j) (outcome : Outcome α) :
    r.committed d (outcome.map fun _ => ()) = Session.committedBy outcome j := by
  unfold committed
  rw [h]
  cases outcome with
  | ok a => rfl
  | error e => rfl

namespace Request

variable {s : Session} {waiting : SortedMap Nat Journal}

theorem serves_onDatabase {α : Type} {a : Action Database α} {r : Request}
    (haction : r.action = (do let _ ← Session.onDatabase a))
    (hjournal : r.journal? s.database = none)
    (ha : ∀ x, Action.Keeps (Database.Stays waiting x) a) (h : s.database.Consistent waiting) :
    Session.Serves waiting s (r.action.perform s).2
      (r.committed s.database (r.action.perform s).1) := by
  have hspec := Session.onDatabase_spec ha h
  rw [committed_none hjournal, haction, Action.perform_discard]
  exact Session.serves_quiet hspec.1 hspec.2

theorem serves_action (r : Request) (h : s.database.Consistent waiting) (hw : waiting.Ordered)
    (hwaiting : ∀ id, r.transaction? = some id → waiting.get? id = none) :
    Session.Serves waiting s (r.action.perform s).2
      (r.committed s.database (r.action.perform s).1) := by
  cases r with
  | begin mode => exact serves_onDatabase rfl rfl (fun x => Database.keeps_begin mode) h
  | attach id st =>
      exact serves_onDatabase rfl rfl (fun x => Database.keeps_attach (hwaiting id rfl) st) h
  | execute id statements =>
      have hserves := Session.serves_execute h hw (hwaiting id rfl) statements
      unfold action
      rw [Action.perform_discard, committed_some rfl]
      exact hserves
  | executeAlone st =>
      have hserves := Session.serves_executeAlone h hw st
      unfold action
      rw [Action.perform_discard, committed_some rfl]
      exact hserves
  | commit id =>
      have hserves := Session.serves_commit h hw (hwaiting id rfl)
      unfold action
      have hmap : ((Session.commit id).perform s).1.map (fun _ => ()) =
          ((Session.commit id).perform s).1 := by
        cases ((Session.commit id).perform s).1 with
        | ok u => rfl
        | error e => rfl
      rw [← hmap, committed_some rfl]
      exact hserves
  | abort id =>
      have hspec := Session.onDatabase_spec
        (fun x => Database.keeps_abortFor (hwaiting id rfl) (.transactionAborted id)) h
      rw [committed_none rfl]
      exact Session.serves_quiet hspec.1 hspec.2
  | drop id => exact serves_onDatabase rfl rfl (fun x => Database.keeps_drop (hwaiting id rfl)) h
  | failAt call message =>
      rw [committed_none rfl]
      exact Session.serves_quiet h rfl
  | repair =>
      rw [committed_none rfl]
      exact Session.serves_quiet h rfl

end Request

namespace Service

variable {v : Service}

/-- The database of the service is consistent with the journals that wait. -/
structure Consistent (v : Service) : Prop where
  database : v.session.database.Consistent v.waiting
  ordered : v.waiting.Ordered

theorem step_request (v : Service) (r : Request) :
    v.step (.request r) =
      if r.transaction?.any v.waiting.contains then v
      else
        { v with
          session := (r.action.perform v.session).2
          history := v.history ++
            r.committed v.session.database (r.action.perform v.session).1 } := rfl

theorem not_waiting {r : Request} (h : ¬ r.transaction?.any v.waiting.contains = true) (id : Nat)
    (hid : r.transaction? = some id) : v.waiting.get? id = none := by
  rw [hid] at h
  apply SortedMap.contains_eq_false_iff.mp
  simpa using h

theorem step_spec (h : v.Consistent) (e : Event) :
    (v.step e).Consistent ∧ ∃ journals, (v.step e).history = v.history ++ journals ∧
      v.session.ground.Moves (v.step e).session.ground journals := by
  cases e with
  | request r =>
      rw [step_request]
      split
      · exact ⟨h, [], by simp, Ground.Moves.quiet⟩
      · next hblocked =>
          have hserves := r.serves_action h.database h.ordered (not_waiting hblocked)
          exact ⟨⟨hserves.consistent, h.ordered⟩, _, rfl, hserves.moves⟩
  | submit id =>
      unfold step
      dsimp only
      split
      · exact ⟨h, [], by simp, Ground.Moves.quiet⟩
      · next hnot =>
          have hwaiting : v.waiting.get? id = none :=
            SortedMap.contains_eq_false_iff.mp (by simpa using hnot)
          split
          · next j s hsubmit =>
              rcases Session.submit_ok h.database h.ordered hwaiting hsubmit with
                ⟨hconsistent, hbackstore, hbase⟩
              refine ⟨⟨hconsistent, h.ordered.insert _ _⟩, [], by simp, ?_⟩
              dsimp only
              rw [Session.ground_eq hbackstore hbase]
              exact Ground.Moves.quiet
          · next e s hsubmit =>
              rw [Session.eq_of_submit_error hsubmit]
              exact ⟨h, [], by simp, Ground.Moves.quiet⟩
  | settle id =>
      unfold step
      dsimp only
      split
      · exact ⟨h, [], by simp, Ground.Moves.quiet⟩
      · next j hwaits =>
          rcases hflush : (Session.flush j).perform v.session with ⟨r, s'⟩
          rcases Session.settle_spec h.database h.ordered hwaits hflush with
            ⟨s'', hsettle, hconsistent, hbackstore, hbase, _⟩
          have hmoves := Session.moves_flush hflush (h.database.waits hwaits).1.toTracks
          rw [← Session.ground_eq hbackstore hbase] at hmoves
          rw [hsettle]
          cases r with
          | ok u => exact ⟨⟨hconsistent, h.ordered.erase _⟩, [j], rfl, hmoves⟩
          | error e => exact ⟨⟨hconsistent, h.ordered.erase _⟩, [], by simp, hmoves⟩
  | withdraw id =>
      refine ⟨⟨h.database.fewer ?_, h.ordered.erase _⟩, [], by simp [step], Ground.Moves.quiet⟩
      intro i j hi
      change (v.waiting.erase id).get? i = some j at hi
      rw [SortedMap.get?_erase h.ordered] at hi
      split at hi
      · cases hi
      · exact hi

theorem consistent_after (h : v.Consistent) (events : List Event) : (v.after events).Consistent := by
  unfold after
  induction events generalizing v with
  | nil => exact h
  | cons e rest ih => exact ih (step_spec h e).1

theorem ground_after {P : Ground → Prop} (h : v.Consistent) (hground : P v.session.ground)
    (hmoves : ∀ {g g' : Ground} {journals : List Journal}, g.base.committed.WellKept → P g →
      g.Moves g' journals → P g') (events : List Event) : P (v.after events).session.ground := by
  unfold after
  induction events generalizing v with
  | nil => exact hground
  | cons e rest ih =>
      rcases step_spec h e with ⟨hstep, journals, _, hmove⟩
      exact ih hstep (hmoves h.database.wellKept hground hmove)

end Service

end RelationalDb
