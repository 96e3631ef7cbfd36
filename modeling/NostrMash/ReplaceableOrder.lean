import NostrMash.ReplaceableTracking

/-!
# Replaceable state in any order

After any calls of `UpdateReplaceableState`, in any order and with repetitions, the tables are
determined by the versions that the calls were about.
-/

namespace NostrMash.Replaceable
open AuthorStats List

section

def versions (stored : String → Option EventContent) (calls : List String) : List Version :=
  calls.filterMap fun id => if trimSpace id = "" then none else version stored (trimSpace id)

variable (stored : String → Option EventContent) {v : Version}

theorem eventID_of_version {id : String} (h : version stored id = some v) :
    v.row.eventID = id := by
  obtain ⟨e, -, h⟩ := Option.bind_eq_some_iff.mp h
  obtain ⟨A, -, rfl⟩ := Option.map_eq_some_iff.mp h
  rfl

theorem version_of_mem {calls : List String} (h : v ∈ versions stored calls) :
    version stored v.row.eventID = some v := by
  obtain ⟨id, -, h⟩ := mem_filterMap.mp h
  split_ifs at h
  rwa [eventID_of_version stored h]

theorem consistent_of_versions {vs : List Version}
    (h : ∀ v ∈ vs, version stored v.row.eventID = some v) : Consistent vs := by
  intro v hv v' hv' hid
  have heq := h v hv
  rw [hid, h v' hv'] at heq
  exact (Option.some.inj heq).symm

theorem update_eq (S : Tables) (id : String) :
    (updateReplaceableState stored S id).toOption.getD S =
      ((if trimSpace id = "" then none else version stored (trimSpace id)).elim S S.record) := by
  unfold updateReplaceableState
  split_ifs with hblank hmissing
  · rfl
  · simp [version, Option.isNone_iff_eq_none.mp hmissing, Except.toOption]
  · rfl

theorem tracks_updateAll (calls : List String) :
    Tracks (versions stored calls) (updateAll stored calls) := by
  -- the calls are taken from the end, where the next one comes in
  induction calls using List.reverseRecOn with
  | nil => exact tracks_empty
  | append_singleton calls id ih =>
    have hstep : updateAll stored (calls ++ [id]) =
        (updateReplaceableState stored (updateAll stored calls) id).toOption.getD
          (updateAll stored calls) := by
      rw [updateAll, foldl_append]
      rfl
    have hversions : versions stored (calls ++ [id]) = versions stored calls ++
        (if trimSpace id = "" then none else version stored (trimSpace id)).toList := by
      rw [versions, filterMap_append]
      congr 1
    rw [hstep, update_eq, hversions]
    cases hv : (if trimSpace id = "" then none else version stored (trimSpace id)) with
    | none =>
      rw [Option.toList_none, append_nil]
      exact ih
    | some v =>
      have hmem : ∀ v', v' ∈ versions stored calls ++ [v] ↔ v' ∈ v :: versions stored calls := by
        intro v'
        rw [mem_append, mem_singleton, mem_cons, or_comm]
      refine tracks_of_mem_iff (tracks_record ?_ ih) hmem
      refine consistent_of_versions stored fun v' hv' => ?_
      rw [← hmem, show [v] = (some v).toList from rfl, ← hv, ← hversions] at hv'
      exact version_of_mem stored hv'

/-- The tables after any calls, from the versions alone: the current event of an address is the
version that beats all others, and the versions that are beaten are queued. -/
theorem updateAll_converges (calls : List String) (A : Address) (w : Winner) :
    (((updateAll stored calls).state A).isSome = true ↔ ∃ w, ⟨A, w⟩ ∈ versions stored calls) ∧
      ((updateAll stored calls).state A = some w ↔ ⟨A, w⟩ ∈ versions stored calls ∧
        ∀ w', ⟨A, w'⟩ ∈ versions stored calls → w' ≠ w → w.Beats w') ∧
      (w ∈ (updateAll stored calls).purge ↔ ∃ B, ⟨B, w⟩ ∈ versions stored calls ∧
        ∃ w', ⟨B, w'⟩ ∈ versions stored calls ∧ w'.Beats w) := by
  have h := tracks_updateAll stored calls
  exact ⟨h.isSome_iff A, h.eq_some_iff A w, h.mem_purge_iff w⟩

def twoProfiles : String → Option EventContent
  | "aa" => some { pubkey := "p", kind := 0, createdAt := 1000, tags := [] }
  | "bb" => some { pubkey := "p", kind := 0, createdAt := 1000, tags := [] }
  | _ => none

theorem greater_id_wins :
    version twoProfiles "aa" = some ⟨⟨"p", 0, ""⟩, ⟨"aa", 1000⟩⟩ ∧ "aa" < "bb" ∧
      (updateAll twoProfiles ["aa", "bb"]).state ⟨"p", 0, ""⟩ = some ⟨"bb", 1000⟩ := by
  decide

end

variable (stored : String → Option EventContent) (calls : List String) (pubkey : String) (kind : ℕ)

/-- One row for the author and the kind, and the older events are queued. -/
def OneCurrent : Prop :=
  (∀ d d', ((updateAll stored calls).state ⟨pubkey, kind, d⟩).isSome = true →
    ((updateAll stored calls).state ⟨pubkey, kind, d'⟩).isSome = true → d = d') ∧
    ∀ v ∈ versions stored calls, v.address.pubkey = pubkey → v.address.kind = kind →
      ∀ d w, (updateAll stored calls).state ⟨pubkey, kind, d⟩ = some w →
        v.row.createdAt < w.createdAt → v.row ∈ (updateAll stored calls).purge

/-- All events of the author and the kind have the same `d` tag, or none of them has one. -/
def SameDTag : Prop :=
  ∀ d d' w w', ⟨⟨pubkey, kind, d⟩, w⟩ ∈ versions stored calls →
    ⟨⟨pubkey, kind, d'⟩, w'⟩ ∈ versions stored calls → d = d'

/-- An author and a kind have one current event exactly if their events share the `d` tag. -/
theorem oneCurrent_iff_sameDTag :
    OneCurrent stored calls pubkey kind ↔ SameDTag stored calls pubkey kind := by
  have h := tracks_updateAll stored calls
  constructor
  · rintro ⟨hone, -⟩ d d' w w' hw hw'
    exact hone d d' ((h.isSome_iff _).mpr ⟨w, hw⟩) ((h.isSome_iff _).mpr ⟨w', hw'⟩)
  · intro hsame
    refine ⟨fun d d' hd hd' => ?_, ?_⟩
    · obtain ⟨w, hw⟩ := (h.isSome_iff _).mp hd
      obtain ⟨w', hw'⟩ := (h.isSome_iff _).mp hd'
      exact hsame d d' w w' hw hw'
    · rintro ⟨⟨_, _, d'⟩, row⟩ hv rfl rfl d w hw holder
      have hcurrent := (h.current _ w hw).1
      obtain rfl : d = d' := hsame d d' w row hcurrent hv
      exact (h.mem_purge_iff row).mpr ⟨_, hv, w, hcurrent, .inl holder⟩

def taggedProfile : String → Option EventContent
  | "aa" => some { pubkey := "p", kind := 0, createdAt := 1000, tags := [["d", "x"]] }
  | "bb" => some { pubkey := "p", kind := 0, createdAt := 2000, tags := [] }
  | _ => none

theorem tagged_profile_stays :
    (updateAll taggedProfile ["aa", "bb"]).state ⟨"p", 0, "x"⟩ = some ⟨"aa", 1000⟩ ∧
      (updateAll taggedProfile ["aa", "bb"]).state ⟨"p", 0, ""⟩ = some ⟨"bb", 2000⟩ ∧
      (updateAll taggedProfile ["aa", "bb"]).purge = [] := by
  decide

end NostrMash.Replaceable
