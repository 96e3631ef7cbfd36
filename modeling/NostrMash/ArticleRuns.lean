import NostrMash.FollowerDeltas
import NostrMash.ReadCommitted
import NostrMash.ReplaceableTracking

/-!
# Concurrent runs of UpdateReplaceableState

`UpdateReplaceableState` counts an article when the address of a kind-30023 event is stored for the
first time.
-/

namespace NostrMash.Articles
open AuthorStats ContactLists ReadCommitted Replaceable Session

inductive AddressCounter where
  | longFormNoteCount
  | mediaCount
  deriving DecidableEq

def addressCounter (kind : ℕ) : Option AddressCounter :=
  if kind = 34235 ∨ kind = 34236 then some .mediaCount
  else if kind = 30023 then some .longFormNoteCount
  else none

/-- `created` lists the addresses for which a row of `replaceable_state` has been created. -/
structure Tables where
  replaceable : Replaceable.Tables
  profiles : KeyedTable String ProfileStats
  created : List Address

def AddressCounter.increment (c : AddressCounter) (pubkey : String)
    (T : KeyedTable String ProfileStats) : KeyedTable String ProfileStats :=
  match c with
  | .longFormNoteCount => T.upsert pubkey { longFormNoteCount := 1 }
      fun row => { row with longFormNoteCount := row.longFormNoteCount + 1 }
  | .mediaCount => T.upsert pubkey { mediaCount := 1 }
      fun row => { row with mediaCount := row.mediaCount + 1 }

inductive Write where
  | upsertState (v : Version)
  | queueLoser (v : Version)
  | increment (c : AddressCounter) (pubkey : String)

/-- An upsert is decided by the row that it has locked, so it does not matter that it is applied
when its transaction commits. -/
def Write.apply (T : Tables) : Write → Tables
  | .upsertState v =>
    { T with
      replaceable := T.replaceable.upsert v.address v.row
      created := if (T.replaceable.state v.address).isNone then v.address :: T.created
        else T.created }
  | .queueLoser v => { T with replaceable := T.replaceable.queueLoser v.address v.row }
  | .increment c pubkey => { T with profiles := c.increment pubkey T.profiles }

inductive Lock where
  | state (A : Address)
  | profile (pubkey : String)
  deriving DecidableEq

def Write.lock : Write → Lock
  | .upsertState v => .state v.address
  | .queueLoser v => .state v.address
  | .increment _ pubkey => .profile pubkey

def schema : Schema Tables Write Lock := ⟨Write.apply, Write.lock⟩

section

/-- Where a run is. -/
inductive Phase where
  | idle
  | started (v : Version) (prior : Bool)
  | upserted (v : Version) (prior returned : Bool)
  | loserQueued (v : Version) (prior returned : Bool)
  | counted (v : Version) (prior returned : Bool)
  deriving DecidableEq

abbrev State (τ : Type) := Session τ Tables Write Phase

inductive Act (τ : Type) where
  | start (t : τ) (eventID : String)
  | upsert (t : τ)
  | queueLoser (t : τ)
  | count (t : τ)
  | commit (t : τ)
  | rollback (t : τ)
  deriving DecidableEq

variable {τ : Type} [DecidableEq τ]

def isNewAddress (prior returned : Bool) : Bool := !prior && returned

def increments (v : Version) (prior returned : Bool) : List Write :=
  if isNewAddress prior returned then
    ((addressCounter v.address.kind).map fun c => .increment c v.address.pubkey).toList
  else []

/-- The upsert waits while another run has written the row, and keeps its snapshot. -/
def step (stored : String → Option EventContent) (s : State τ) : Act τ → Option (State τ)
  | .start t eventID =>
    match s.phase t with
    | .idle =>
      if trimSpace eventID = "" then none
      else (version stored (trimSpace eventID)).map fun v =>
        s.goto t (.started v ((s.view schema t).replaceable.state v.address).isSome)
    | _ => none
  | .upsert t =>
    match s.phase t with
    | .started v prior =>
      s.write schema t [.upsertState v] (.upserted v prior
        (((s.view schema t).replaceable.state v.address).all fun old => v.row.Beats old))
    | _ => none
  | .queueLoser t =>
    match s.phase t with
    | .upserted v prior returned => s.write schema t [.queueLoser v] (.loserQueued v prior returned)
    | _ => none
  | .count t =>
    match s.phase t with
    | .loserQueued v prior returned =>
      s.write schema t (increments v prior returned) (.counted v prior returned)
    | _ => none
  | .commit t =>
    match s.phase t with
    | .counted _ _ _ => some (s.commit schema t .idle)
    | _ => none
  | .rollback t => some (s.rollback t .idle)

def init (T : Tables) : State τ := Session.start { T with created := [] } .idle

end

variable {ws : List Write}

section
variable {T : Tables} {A : Address}

theorem isSome_state_upsert (S : Replaceable.Tables) {B : Address} (new : Winner)
    (h : (S.state B).isSome) : ((S.upsert A new).state B).isSome := by
  by_cases hB : B = A
  · subst hB
    unfold Replaceable.Tables.upsert
    split_ifs
    · simp [Replaceable.Tables.put]
    · exact h
  · rwa [state_upsert_ne S hB]

theorem isSome_state_apply (w : Write) (h : (T.replaceable.state A).isSome) :
    ((Write.apply T w).replaceable.state A).isSome := by
  cases w with
  | upsertState v => exact isSome_state_upsert _ _ h
  | queueLoser v =>
    show ((T.replaceable.queueLoser v.address v.row).state A).isSome
    rwa [state_queueLoser]
  | increment c pubkey => exact h

theorem state_apply_of_lock_ne (w : Write) (h : w.lock ≠ .state A) :
    (Write.apply T w).replaceable.state A = T.replaceable.state A := by
  cases w with
  | upsertState v => exact state_upsert_ne _ (fun hA => h (congrArg Lock.state hA.symm)) _
  | queueLoser v => exact congrFun (state_queueLoser _ _ _) A
  | increment c pubkey => rfl

theorem isSome_state_foldl (ws : List Write) (h : (T.replaceable.state A).isSome) :
    ((ws.foldl Write.apply T).replaceable.state A).isSome := by
  induction ws generalizing T with
  | nil => exact h
  | cons w ws ih => exact ih (isSome_state_apply w h)

theorem state_foldl_of_lock_ne (h : ∀ w ∈ ws, w.lock ≠ .state A) :
    (ws.foldl Write.apply T).replaceable.state A = T.replaceable.state A := by
  induction ws generalizing T with
  | nil => rfl
  | cons w ws ih =>
    rw [List.foldl_cons, ih fun w' hw' => h w' (List.mem_cons_of_mem w hw')]
    exact state_apply_of_lock_ne w (h w (.head _))

end

variable {τ : Type} [DecidableEq τ] {stored : String → Option EventContent}

def Decided (T : Tables) (v : Version) (prior returned : Bool) : Prop :=
  (prior = true → (T.replaceable.state v.address).isSome) ∧
    returned = (T.replaceable.state v.address).all fun old => v.row.Beats old

def RunInv (_ : τ) (T : Tables) (own : List Write) : Phase → Prop
  | .idle => own = []
  | .started v prior => own = [] ∧ (prior = true → (T.replaceable.state v.address).isSome)
  | .upserted v prior returned => own = [.upsertState v] ∧ Decided T v prior returned
  | .loserQueued v prior returned =>
    own = [.upsertState v, .queueLoser v] ∧ Decided T v prior returned
  | .counted v prior returned =>
    own = .upsertState v :: .queueLoser v :: increments v prior returned ∧
      Decided T v prior returned

def CreatedStored (T : Tables) : Prop := ∀ A ∈ T.created, (T.replaceable.state A).isSome

structure Inv (s : State τ) : Prop where
  runs : s.Holds CreatedStored RunInv
  exclusive : s.Exclusive schema

variable {s s' : State τ} {t u : τ}

theorem runInv_commit (h : Inv s) (hu : u ≠ t) :
    RunInv u (s.view schema t) (s.own u) (s.phase u) := by
  have hkept : ∀ v : Version, .upsertState v ∈ s.own u →
      (s.view schema t).replaceable.state v.address =
        s.committed.replaceable.state v.address := by
    intro v hv
    exact state_foldl_of_lock_ne fun w hw hlock =>
      h.exclusive t u (Ne.symm hu) w hw _ hv hlock
  have hrun := h.runs.2 u
  have hdecided : ∀ v prior returned, .upsertState v ∈ s.own u →
      Decided s.committed v prior returned → Decided (s.view schema t) v prior returned := by
    intro v prior returned hv hd
    rwa [Decided, hkept v hv]
  cases hp : s.phase u with
  | idle => rwa [hp] at hrun
  | started v prior =>
    rw [hp] at hrun
    exact ⟨hrun.1, fun hprior => isSome_state_foldl _ (hrun.2 hprior)⟩
  | upserted v prior returned =>
    rw [hp] at hrun
    exact ⟨hrun.1, hdecided v prior returned (by simp [hrun.1]) hrun.2⟩
  | loserQueued v prior returned =>
    rw [hp] at hrun
    exact ⟨hrun.1, hdecided v prior returned (by simp [hrun.1]) hrun.2⟩
  | counted v prior returned =>
    rw [hp] at hrun
    exact ⟨hrun.1, hdecided v prior returned (by simp [hrun.1]) hrun.2⟩

theorem createdStored_apply {T : Tables} (w : Write) (h : CreatedStored T) :
    CreatedStored (Write.apply T w) := by
  intro A hA
  cases w with
  | upsertState v =>
    by_cases hmem : A ∈ T.created
    · exact isSome_state_apply (.upsertState v) (h A hmem)
    · have hnew : (T.replaceable.state v.address).isNone ∧ A = v.address := by
        simp only [Write.apply] at hA
        split_ifs at hA with hnone
        · exact ⟨hnone, (List.mem_cons.mp hA).resolve_right hmem⟩
        · exact absurd hA hmem
      obtain ⟨hnone, rfl⟩ := hnew
      simp [Write.apply, Replaceable.Tables.upsert, Option.isNone_iff_eq_none.mp hnone,
        Replaceable.Tables.put]
  | queueLoser v => exact isSome_state_apply (.queueLoser v) (h A hA)
  | increment c pubkey => exact h A hA

theorem createdStored_foldl {T : Tables} (ws : List Write) (h : CreatedStored T) :
    CreatedStored (ws.foldl Write.apply T) := by
  induction ws generalizing T with
  | nil => exact h
  | cons w ws ih => exact ih (createdStored_apply w h)

theorem inv_init (T : Tables) : Inv (init T : State τ) :=
  ⟨holds_start (fun _ hA => nomatch hA) fun _ => rfl, exclusive_start _ _⟩

theorem Inv.view_eq (h : Inv s) {v : Version} {prior : Bool} (hp : s.phase t = .started v prior) :
    s.view schema t = s.committed := by
  have hrun := h.runs.2 t
  rw [hp] at hrun
  rw [Session.view, hrun.1]
  rfl

theorem Inv.write (h : Inv s) {p : Phase} (hw : s.write schema t ws p = some s')
    (hrun : RunInv t s.committed (s.own t ++ ws) p) : Inv s' :=
  ⟨holds_write h.runs hw hrun, exclusive_write h.exclusive hw⟩

theorem inv_step (h : Inv s) (a : Act τ) (hs : step stored s a = some s') : Inv s' := by
  cases a with
  | start t eventID =>
    have hrun := h.runs.2 t
    cases hp : s.phase t with
    | idle =>
      simp only [step, hp] at hs
      rw [hp] at hrun
      split_ifs at hs
      obtain ⟨v, -, rfl⟩ := Option.map_eq_some_iff.mp hs
      have hview : s.view schema t = s.committed := by
        rw [Session.view, show s.own t = [] from hrun]
        rfl
      refine ⟨holds_goto h.runs ⟨hrun, fun hprior => ?_⟩, exclusive_goto h.exclusive⟩
      rwa [hview] at hprior
    | _ => simp [step, hp] at hs
  | upsert t =>
    have hrun := h.runs.2 t
    cases hp : s.phase t with
    | started v prior =>
      simp only [step, hp, h.view_eq hp] at hs
      rw [hp] at hrun
      exact h.write hs ⟨by rw [hrun.1]; rfl, hrun.2, rfl⟩
    | _ => simp [step, hp] at hs
  | queueLoser t =>
    have hrun := h.runs.2 t
    cases hp : s.phase t with
    | upserted v prior returned =>
      simp only [step, hp] at hs
      rw [hp] at hrun
      exact h.write hs ⟨by rw [hrun.1]; rfl, hrun.2⟩
    | _ => simp [step, hp] at hs
  | count t =>
    have hrun := h.runs.2 t
    cases hp : s.phase t with
    | loserQueued v prior returned =>
      simp only [step, hp] at hs
      rw [hp] at hrun
      exact h.write hs ⟨by rw [hrun.1]; rfl, hrun.2⟩
    | _ => simp [step, hp] at hs
  | commit t =>
    cases hp : s.phase t with
    | counted v prior returned =>
      simp only [step, hp] at hs
      cases hs
      exact ⟨holds_commit (createdStored_foldl _ h.runs.1) rfl
        fun u hu => runInv_commit h hu, exclusive_commit h.exclusive⟩
    | _ => simp [step, hp] at hs
  | rollback t =>
    cases hs
    exact ⟨holds_rollback h.runs rfl, exclusive_rollback h.exclusive⟩

end NostrMash.Articles
