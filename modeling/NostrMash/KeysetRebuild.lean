import NostrMash.KeysetBatches
import Mathlib.Data.List.Dedup
import Mathlib.Data.Prod.Lex
import Mathlib.Data.String.Basic

/-!
# Rebuilding a projection event by event

A full rebuild reads the events of each kind in batches behind a `(created_at, id)` cursor and
projects them one by one. A projection that finds no row is passed over; any other error ends the
rebuild.
-/

namespace NostrMash.Rebuild
open KeysetBatches List

def rebuildCursorBatch : ℕ := 200

structure EventRow where
  id : String
  createdAt : ℤ
  kind : ℤ
  deriving DecidableEq

def EventRow.cursor (e : EventRow) : ℤ ×ₗ String := toLex (e.createdAt, e.id)

structure EventsTable where
  rows : List EventRow
  nodup_id : (rows.map EventRow.id).Nodup
  createdAt_nonneg : ∀ e ∈ rows, 0 ≤ e.createdAt
  id_ne_empty : ∀ e ∈ rows, e.id ≠ ""

inductive Projected where
  | done
  | missingRow
  | failed (err : String)
  deriving DecidableEq

abbrev Outcome := Except (List String × String) (List String)

def Outcome.calls : Outcome → List String
  | .ok calls => calls
  | .error (calls, _) => calls

section
variable (project : List String → String → Projected) (derivationName : String)

def projectBatch : List String → List EventRow → Outcome
  | calls, [] => .ok calls
  | calls, row :: rows =>
    match project calls row.id with
    | .failed err => .error (calls ++ [row.id],
        "rebuild " ++ derivationName ++ " for event " ++ row.id ++ ": " ++ err)
    | _ => projectBatch (calls ++ [row.id]) rows

def eventsOfKind (rows : List EventRow) (kind : ℤ) : List EventRow :=
  rows.filter fun e => e.kind = kind

def rebuildKind (rows : List EventRow) (n : ℕ) (kind : ℤ) (calls : List String) : Option Outcome :=
  drain EventRow.cursor rebuildCursorBatch (eventsOfKind rows kind)
    (projectBatch project derivationName) n (toLex (0, "")) calls

def rebuildProjectKinds (rows : List EventRow) (n : ℕ) :
    List ℤ → List String → Option Outcome
  | [], calls => some (.ok calls)
  | kind :: kinds, calls =>
    match rebuildKind project derivationName rows n kind calls with
    | some (.ok calls') => rebuildProjectKinds rows n kinds calls'
    | ended => ended

end

def visitOrder (rows : List EventRow) (kinds : List ℤ) : List EventRow :=
  kinds.flatMap fun kind => ascending EventRow.cursor (eventsOfKind rows kind)

section
variable {project : List String → String → Projected} {derivationName : String}

theorem projectBatch_append (calls : List String) (as bs : List EventRow) :
    projectBatch project derivationName calls (as ++ bs) =
      (projectBatch project derivationName calls as).bind
        (projectBatch project derivationName · bs) := by
  induction as generalizing calls with
  | nil => rfl
  | cons a as ih =>
    simp only [cons_append, projectBatch]
    split
    · rfl
    · exact ih _

theorem calls_projectBatch (calls : List String) (rows : List EventRow) :
    ∃ visited, visited <+: rows ∧ (projectBatch project derivationName calls rows).calls =
        calls ++ visited.map EventRow.id ∧ ((∀ earlier id err, project earlier id ≠ .failed err) →
        visited = rows ∧
          projectBatch project derivationName calls rows = .ok (calls ++ rows.map EventRow.id)) := by
  induction rows generalizing calls with
  | nil => exact ⟨[], nil_prefix, by simp [projectBatch, Outcome.calls],
      fun _ => ⟨rfl, by simp [projectBatch]⟩⟩
  | cons row rows ih =>
    simp only [projectBatch]
    split
    · next err hfail =>
      refine ⟨[row], by simp, rfl, fun hnone => absurd hfail (hnone _ _ _)⟩
    · obtain ⟨visited, hvisited, hcalls, hall⟩ := ih (calls ++ [row.id])
      refine ⟨row :: visited, (prefix_cons_inj row).mpr hvisited, by simp [hcalls], ?_⟩
      intro hnone
      obtain ⟨rfl, hok⟩ := hall hnone
      exact ⟨rfl, by simp [hok]⟩

end

namespace EventsTable

variable (events : EventsTable) {e : EventRow}

theorem cursor_lt (he : e ∈ events.rows) :
    (toLex (0, "") : ℤ ×ₗ String) < e.cursor := by
  rw [EventRow.cursor, Prod.Lex.toLex_lt_toLex]
  rcases (events.createdAt_nonneg e he).lt_or_eq with h | h
  · exact .inl h
  · refine .inr ⟨h, String.lt_iff_toList_lt.mpr ?_⟩
    cases hid : e.id.toList with
    | nil => exact absurd (String.toList_eq_nil_iff.mp hid) (events.id_ne_empty e he)
    | cons c cs => exact nil_lt_cons c cs

theorem nodup_cursor : (events.rows.map EventRow.cursor).Nodup := by
  have hids := events.nodup_id
  rw [List.Nodup, pairwise_map] at hids ⊢
  refine hids.imp fun hab h => hab ?_
  exact (Prod.mk.inj (toLex.injective h)).2

theorem rebuildProjectKinds_eq {project : List String → String → Projected}
    {derivationName : String} {n : ℕ} (hn : events.rows.length < n) (kinds : List ℤ)
    (calls : List String) : rebuildProjectKinds project derivationName events.rows n kinds calls =
      some (projectBatch project derivationName calls (visitOrder events.rows kinds)) := by
  induction kinds generalizing calls with
  | nil => rfl
  | cons kind kinds ih =>
    have hkind : rebuildKind project derivationName events.rows n kind calls =
        some (projectBatch project derivationName calls
          (ascending EventRow.cursor (eventsOfKind events.rows kind))) := by
      refine drain_eq ?_ (by decide) (fun _ => rfl) projectBatch_append ?_ ?_ calls
      · exact events.nodup_cursor.sublist (filter_sublist.map _)
      · exact (length_filter_le _ _).trans_lt hn
      · exact fun e he => events.cursor_lt (mem_of_mem_filter he)
    rw [rebuildProjectKinds, hkind, visitOrder, flatMap_cons, projectBatch_append]
    cases projectBatch project derivationName calls
        (ascending EventRow.cursor (eventsOfKind events.rows kind)) with
    | error e => rfl
    | ok calls' => exact ih calls'

variable {events} {kinds : List ℤ}

theorem mem_visitOrder :
    e ∈ visitOrder events.rows kinds ↔ e ∈ events.rows ∧ e.kind ∈ kinds := by
  simp only [visitOrder, mem_flatMap, mem_ascending, eventsOfKind, mem_filter, decide_eq_true_eq]
  exact ⟨fun ⟨_, hk, he, h⟩ => ⟨he, h ▸ hk⟩, fun ⟨he, hk⟩ => ⟨_, hk, he, rfl⟩⟩

theorem pairwise_eventsOfKind (kind : ℤ) :
    (ascending EventRow.cursor (eventsOfKind events.rows kind)).Pairwise
      fun a b => a.cursor < b.cursor := by
  have hle : (ascending EventRow.cursor (eventsOfKind events.rows kind)).Pairwise
      fun a b => a.cursor ≤ b.cursor := pairwise_ascending _
  have hnd : ((ascending EventRow.cursor (eventsOfKind events.rows kind)).map
      EventRow.cursor).Nodup :=
    ((perm_ascending _).map _).nodup_iff.mpr
      (events.nodup_cursor.sublist (filter_sublist.map _))
  rw [List.Nodup, pairwise_map] at hnd
  exact hle.imp₂ (fun _ _ h hne => lt_of_le_of_ne h hne) hnd

theorem pairwise_visitOrder (hkinds : kinds.Nodup) :
    (visitOrder events.rows kinds).Pairwise fun a b =>
      a ≠ b ∧ (a.kind = b.kind → a.cursor < b.cursor) := by
  rw [visitOrder, pairwise_flatMap]
  constructor
  · intro kind _
    refine (pairwise_eventsOfKind kind).imp fun h => ⟨?_, fun _ => h⟩
    rintro rfl
    exact lt_irrefl _ h
  · refine hkinds.imp fun {k l} hkl a ha b hb => ?_
    have hak : a.kind = k := of_decide_eq_true (mem_filter.mp (mem_ascending.mp ha)).2
    have hbl : b.kind = l := of_decide_eq_true (mem_filter.mp (mem_ascending.mp hb)).2
    have hne : a.kind ≠ b.kind := by rwa [hak, hbl]
    exact ⟨fun hab => hne (congrArg EventRow.kind hab), fun h => absurd h hne⟩

/-- A rebuild ends, whatever the projections answer. -/
theorem rebuildProjectKinds_visits_once (project : List String → String → Projected)
    (derivationName : String) (events : EventsTable) {kinds : List ℤ} (hkinds : kinds.Nodup)
    {n : ℕ} (hn : events.rows.length < n) : ∃ (outcome : Outcome) (visited : List EventRow),
      rebuildProjectKinds project derivationName events.rows n kinds [] = some outcome ∧
      outcome.calls = visited.map EventRow.id ∧ (visited.map EventRow.id).Nodup ∧
      (∀ e ∈ visited, e ∈ events.rows ∧ e.kind ∈ kinds) ∧
      visited.Pairwise (fun a b => a.kind = b.kind → a.cursor < b.cursor) ∧
      ((∀ earlier id err, project earlier id ≠ .failed err) →
        outcome = .ok (visited.map EventRow.id) ∧
          ∀ e ∈ events.rows, e.kind ∈ kinds → e ∈ visited) := by
  obtain ⟨visited, hvisited, hcalls, hall⟩ :=
    @calls_projectBatch project derivationName [] (visitOrder events.rows kinds)
  have hmem : ∀ e ∈ visited, e ∈ events.rows ∧ e.kind ∈ kinds := fun e he =>
    mem_visitOrder.mp (hvisited.subset he)
  have horder := (@pairwise_visitOrder events kinds hkinds).sublist hvisited.sublist
  refine ⟨_, visited, events.rebuildProjectKinds_eq hn kinds [], hcalls, ?_, hmem,
    horder.imp And.right, ?_⟩
  · refine List.Nodup.map_on ?_ (horder.imp And.left)
    intro a ha b hb hab
    exact inj_on_of_nodup_map events.nodup_id (hmem a ha).1 (hmem b hb).1 hab
  · intro hnone
    obtain ⟨rfl, hok⟩ := hall hnone
    exact ⟨hok, fun e he hk => mem_visitOrder.mpr ⟨he, hk⟩⟩

def tiedEvents : EventsTable where
  rows := [⟨"b", 5, 1⟩, ⟨"c", 0, 7⟩, ⟨"a", 5, 1⟩]
  nodup_id := by decide
  createdAt_nonneg := by decide
  id_ne_empty := by decide

theorem tiedEvents_visited : ∃ visited : List EventRow,
    rebuildProjectKinds (fun _ _ => .missingRow) "surfaces" tiedEvents.rows 4 [7, 1] [] =
      some (.ok (visited.map EventRow.id)) ∧ ∀ e ∈ tiedEvents.rows, e ∈ visited := by
  obtain ⟨outcome, visited, hrun, -, -, -, -, hall⟩ :=
    rebuildProjectKinds_visits_once (fun _ _ => .missingRow) "surfaces" tiedEvents
      (by decide : ([7, 1] : List ℤ).Nodup) (by decide : tiedEvents.rows.length < 4)
  obtain ⟨rfl, hmem⟩ := hall fun _ _ _ h => Projected.noConfusion h
  exact ⟨visited, hrun, fun e he => hmem e he (by revert e; decide)⟩

end EventsTable
end NostrMash.Rebuild
