import Mathlib
import RelationalDb.Proofs.Database.Opening
import RelationalDb.Proofs.Database.Requests
import RelationalDb.Proofs.Schema.Catalogs

/-!
# Isolation

The committed rows are always those that were loaded, under the net changes of the commits
so far in their order.  A query in a transaction reads those rows under the net changes of
its own transaction, and nothing that another transaction has staged.
-/

namespace RelationalDb

/-- The rows of a table under the net changes of several journals, one after the other. -/
def Journal.overlayAll (journals : List Journal) (table : String) (rows : RowMap) : RowMap :=
  journals.foldl (fun rows j => j.overlay table rows) rows

theorem Journal.overlayAll_append (journals more : List Journal) (table : String) (rows : RowMap) :
    overlayAll (journals ++ more) table rows =
      overlayAll more table (overlayAll journals table rows) :=
  List.foldl_append

namespace Ground

variable {g g' : Ground} {journals : List Journal}

/-- A move puts the net changes of the journals that it commits on the committed rows. -/
theorem Moves.rows (h : g.Moves g' journals) (hc : g.base.committed.WellKept) (table : String) :
    g'.base.committed.rows? table =
      (g.base.committed.rows? table).map (Journal.overlayAll journals table) := by
  cases h with
  | quiet => exact Option.map_id'.symm
  | empty j htracks hempty =>
      have hsame : Journal.overlayAll [j] table = id := by
        funext rows
        exact Journal.overlay_of_isEmpty htracks hempty table rows
      rw [hsame, Option.map_id]
      rfl
  | written j htracks => exact htracks.rows_install hc table

def Sound (g : Ground) : Prop :=
  ∀ {table : String} {s : TableStore}, g.base.committed.store? table = some s → s.Sound

theorem Moves.sound (h : g.Moves g' journals) (hc : g.base.committed.WellKept) (hs : g.Sound) :
    g'.Sound := by
  cases h with
  | quiet => exact hs
  | empty j htracks hempty => exact hs
  | written j htracks =>
      intro table s hstore
      exact htracks.sound_view hs ((htracks.store?_install hc table).symm.trans hstore)

end Ground

namespace Service

variable {v : Service}

theorem after_spec (h : v.Consistent) (events : List Event) :
    ∃ journals, (v.after events).history = v.history ++ journals ∧
      (∀ table, (v.after events).session.database.committed.rows? table =
        (v.session.database.committed.rows? table).map (Journal.overlayAll journals table)) ∧
      (v.session.ground.Sound → (v.after events).session.ground.Sound) := by
  unfold after
  induction events generalizing v with
  | nil => exact ⟨[], by simp, fun table => Option.map_id'.symm, fun hs => hs⟩
  | cons e rest ih =>
      rcases step_spec h e with ⟨hstep, journals, hhistory, hmoves⟩
      rcases ih hstep with ⟨more, hhistory', hrows, hsound⟩
      rw [List.foldl_cons]
      refine ⟨journals ++ more, ?_, ?_, ?_⟩
      · rw [hhistory', hhistory, List.append_assoc]
      · intro table
        have hmoved : (v.step e).session.database.committed.rows? table = _ :=
          hmoves.rows h.database.wellKept table
        rw [hrows table, hmoved, Option.map_map]
        congr 1
        funext rows
        exact (Journal.overlayAll_append journals more table rows).symm
      · intro hs
        exact hsound (hmoves.sound h.database.wellKept hs)

end Service

namespace Database

variable {d : Database} {id : Nat} {t : Transaction} {q : Select}

theorem accept_select (hactive : t.work.isActive = true)
    (hcheck : (Statement.select q).check = .ok ()) : d.accept t (.select q) = .ok d.locks := by
  unfold accept
  rw [hactive, hcheck]
  rfl

theorem attach_select (hd : d.transactions.Ordered) (ht : d.transactions.get? id = some t)
    (hid : t.work.id = id) (hactive : t.work.isActive = true)
    (hcheck : (Statement.select q).check = .ok ()) :
    ((attach id (.select q)).perform d).1 =
      d.planner.execute
        ({ committed := d.committed, journal := some t.work.journal } : View).store? q := by
  have hphase : t.work.phase = .active := by simpa [UnitOfWork.isActive] using hactive
  have hrun : (Statement.run d.planner d.committed (.select q)).perform
      { work := t.work, rowIds := d.rowIds } =
        (d.planner.execute
          ({ committed := d.committed, journal := some t.work.journal } : View).store? q,
          { work := t.work, rowIds := d.rowIds }) := by
    rcases t with ⟨⟨number, mode, journal, phase⟩, outcome⟩
    cases hphase
    rfl
  rw [perform_attach, ht]
  dsimp only
  rw [accept_select hactive hcheck]
  dsimp only
  cases hexecute : d.planner.execute
      ({ committed := d.committed, journal := some t.work.journal } : View).store? q with
  | ok rows =>
      rw [hrun, hexecute]
  | error f =>
      rw [hrun, hexecute]
      dsimp only
      have hran : (d.ran t (.select q) d.locks).transactions.get? id = some t := by
        unfold ran
        rw [hrun]
        change (d.transactions.insert t.work.id t).get? id = some t
        rw [SortedMap.get?_insert hd, hid, if_pos rfl]
      rw [Action.perform_bind, perform_abortFor, hran]
      dsimp only
      rw [hphase]
      rfl

end Database

def Catalog.shop : Catalog where
  name := "shop"
  version := 1
  tables := [.items]

theorem Catalog.built_shop : Catalog.shop.Built := by
  have hstart : Catalog.start "shop" 1 = .ok { name := "shop", version := 1 } := rfl
  exact (Built.start hstart).addTable Table.built_items rfl

namespace Service

/-- Statements that are executed together run in the states that lead from one to the next when
they are attached on their own. -/
theorem session_after_attach {id : Nat} {statements : List Statement} {results : List ResultSet}
    {d : Database} {v : Service} (hnot : v.waiting.get? id = none)
    (hall : (Session.attachAll id statements).perform v.session.database = (.ok results, d)) :
    (v.after (statements.map fun s => .request (.attach id s))).session =
      { v.session with database := d } := by
  unfold after
  induction statements generalizing v results with
  | nil =>
      cases hall
      rfl
  | cons s rest ih =>
      rcases Action.perform_bind_eq_ok hall with ⟨r, d₁, hattach, hrest⟩
      rcases Action.perform_bind_eq_ok hrest with ⟨rs, d₂, hattached, hresults⟩
      cases hresults
      have hstep : v.step (.request (.attach id s)) =
          { v with session := { v.session with database := d₁ } } := by
        rw [step_request, if_neg]
        · unfold Request.action
          rw [Action.perform_discard, Session.perform_onDatabase, hattach,
            Request.committed_none rfl, List.append_nil]
        · change ¬ v.waiting.contains id = true
          rw [SortedMap.contains_eq_false_iff.mpr hnot]
          simp
      rw [List.map_cons, List.foldl_cons, hstep]
      exact ih hnot hattached

def opened (b : Backstore) (d : Database) : Service :=
  { session := { backstore := b, database := d } }

theorem consistent_opened {c : Catalog} {options : DatabaseOptions} {b b₁ : Backstore}
    {d : Database} (hopen : (Database.load c options).perform b = (.ok d, b₁)) :
    (opened b₁ d).Consistent :=
  ⟨(Database.fresh_load hopen).consistent, SortedMap.ordered_empty⟩

/-- After any events the committed rows are those that were loaded, under the net changes of the
commits so far in their order.  A query is answered from a source that has those rows under the
net changes of its own transaction, and whose indices are in step with them if the loaded ones
were.  Statements that are executed together run in the states to which single requests lead, so
that this holds of the queries among them too. -/
theorem queries_read_commits_and_their_own_changes {c : Catalog} {options : DatabaseOptions}
    {b b₁ : Backstore} {d : Database}
    (hopen : (Database.load c options).perform b = (.ok d, b₁)) (events : List Event) :
    let v := (opened b₁ d).after events
    (∀ table, v.session.database.committed.rows? table =
      (d.committed.rows? table).map (Journal.overlayAll v.history table)) ∧
    (∀ (id : Nat) (t : Transaction) (q : Select),
      v.session.database.transaction id = .ok t → t.work.isActive = true →
        (Statement.select q).check = .ok () →
          ∃ source : TableSource,
            ((Session.onDatabase (Database.attach id (.select q))).perform v.session).1 =
              v.session.database.planner.execute source q ∧
            (∀ table, (source table).map (·.rows) =
              (d.committed.rows? table).map fun rows =>
                t.work.journal.overlay table (Journal.overlayAll v.history table rows)) ∧
            ((∀ table s, d.committed.store? table = some s → s.Sound) →
              ∀ table s, source table = some s → s.Sound)) ∧
    ∀ (id : Nat) (statements : List Statement) (results : List ResultSet) (d' : Database),
      v.waiting.get? id = none →
        (Session.attachAll id statements).perform v.session.database = (.ok results, d') →
          (v.after (statements.map fun s => .request (.attach id s))).session =
            { v.session with database := d' } := by
  intro v
  have hopened : (opened b₁ d).Consistent :=
    ⟨(Database.fresh_load hopen).consistent, SortedMap.ordered_empty⟩
  have hv : v.Consistent := consistent_after hopened events
  rcases after_spec hopened events with ⟨journals, hhistory, hrows, hsound⟩
  have hjournals : v.history = journals := hhistory
  rw [hjournals]
  refine ⟨hrows, ?_, fun _ _ _ _ hnot hall => session_after_attach hnot hall⟩
  intro id t q htransaction hactive hcheck
  have ht := Database.transaction_eq_ok_iff.mp htransaction
  have htracks := (hv.database.guarded ht).toTracks
  refine ⟨({ committed := v.session.database.committed, journal := some t.work.journal } :
    View).store?, ?_, ?_, ?_⟩
  · exact Database.attach_select hv.database.orderedTransactions ht (hv.database.numbered ht).1
      hactive hcheck
  · intro table
    have hcommitted : v.session.database.committed.rows? table = _ := hrows table
    rw [htracks.rows_view hv.database.wellKept, hcommitted, Option.map_map]
    rfl
  · intro hloaded table s hs
    have hground : v.session.ground.Sound := hsound fun hstore => hloaded _ _ hstore
    exact htracks.sound_view hground hs

set_option maxRecDepth 10000 in
/-- A reader is answered from no items while the commit of the first one waits. -/
theorem waiting_item_is_not_read :
    ∃ (d : Database) (b : Backstore), (Database.load .shop {}).perform {} = (.ok d, b) ∧
      ∃ (t : Transaction) (source : TableSource),
        let v := (opened b d).after
          [.request (.begin .readWrite),
            .request (.attach 1 (.insert { table := .items, rows := [[.int64 7, .float64 ⟨0⟩]] })),
            .submit 1, .request (.begin .readOnly)]
        v.session.database.transaction 2 = .ok t ∧
          ((Session.onDatabase (Database.attach 2 (.select { tables := [.items] }))).perform
            v.session).1 = v.session.database.planner.execute source { tables := [.items] } ∧
          (source "item").map (·.rows) = some {} := by
  refine ⟨_, _, rfl, ?_⟩
  have h := @queries_read_commits_and_their_own_changes .shop {} {} _ _ rfl
    [.request (.begin .readWrite),
      .request (.attach 1 (.insert { table := .items, rows := [[.int64 7, .float64 ⟨0⟩]] })),
      .submit 1, .request (.begin .readOnly)]
  rcases h.2.1 2 _ { tables := [.items] } rfl rfl rfl with ⟨source, hanswer, hrows, _⟩
  exact ⟨_, source, rfl, hanswer, hrows "item"⟩

end Service

end RelationalDb
