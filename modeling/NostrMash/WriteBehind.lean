import Mathlib.Algebra.Order.Ring.Int

/-!
# A write-behind buffer

A value is kept in memory and written to a store by flushes. A flush takes a snapshot, writes it
later and then clears the dirty mark unless the value in memory carries a later stamp than the
snapshot.
-/

namespace NostrMash.WriteBehind

structure Cell (V : Type*) where
  value : V
  dirty : Bool
  revision : ℕ
  deriving DecidableEq

inductive Flight (V : Type*) where
  | none
  | taken (snapshot : V) (revision : ℕ)
  | written (snapshot : V) (revision : ℕ)
  deriving DecidableEq

structure Buffer (τ V : Type*) where
  stored : Option V
  storedRevision : ℕ
  cell : Option (Cell V)
  flight : τ → Flight V

namespace Buffer

variable {τ V : Type*}

def start (stored : Option V) : Buffer τ V :=
  { stored := stored, storedRevision := 0, cell := none, flight := fun _ => .none }

def opened (B : Buffer τ V) (v : V) : Cell V :=
  B.cell.getD { value := v, dirty := false, revision := 0 }

def openWith (B : Buffer τ V) (v : V) : Buffer τ V := { B with cell := some (B.opened v) }

def update (B : Buffer τ V) (v : V) (f : V → V) : Buffer τ V :=
  let c := B.opened v
  { B with cell := some { value := f c.value, dirty := true, revision := c.revision + 1 } }

variable [DecidableEq τ]

def goto (B : Buffer τ V) (t : τ) (f : Flight V) : Buffer τ V :=
  { B with flight := Function.update B.flight t f }

def write (B : Buffer τ V) (t : τ) (snapshot : V) (revision : ℕ) : Buffer τ V :=
  { B with
    stored := some snapshot
    storedRevision := revision
    flight := Function.update B.flight t (.written snapshot revision) }

def finish (B : Buffer τ V) (t : τ) (clears : V → Bool) : Buffer τ V :=
  { B with
    cell := B.cell.map fun c => if clears c.value then { c with dirty := false } else c
    flight := Function.update B.flight t .none }

end Buffer

variable {τ V : Type*} (stamp : V → ℤ)

structure Behind (c : Cell V) (snapshot : V) (revision : ℕ) : Prop where
  le : revision ≤ c.revision
  same : revision = c.revision → snapshot = c.value
  earlier : revision < c.revision → stamp snapshot < stamp c.value

def FlightInv (storedRevision : ℕ) (c : Cell V) : Flight V → Prop
  | .none => True
  | .taken snapshot revision => Behind stamp c snapshot revision
  | .written snapshot revision => Behind stamp c snapshot revision ∧ revision ≤ storedRevision

structure CellInv (B : Buffer τ V) (c : Cell V) : Prop where
  stored_le : B.storedRevision ≤ c.revision
  stored_eq : B.storedRevision = c.revision → B.stored = some c.value
  clean : c.dirty = false → B.storedRevision = c.revision
  flights : ∀ t, FlightInv stamp B.storedRevision c (B.flight t)

structure Consistent (B : Buffer τ V) : Prop where
  cell : ∀ c ∈ B.cell, CellInv stamp B c
  fresh : B.cell = none → B.storedRevision = 0 ∧ ∀ t, B.flight t = .none

def StampedAfter (B : Buffer τ V) (v : V) : Prop :=
  ∀ t, match B.flight t with
    | .none => True
    | .taken snapshot _ => stamp snapshot < stamp v
    | .written snapshot _ => stamp snapshot < stamp v

variable {stamp} {B : Buffer τ V} {c c' : Cell V} {f : Flight V} {snapshot v : V} {revision : ℕ}

theorem stored_of_clean (h : Consistent stamp B) (hc : B.cell = some c) (hd : c.dirty = false) :
    B.stored = some c.value :=
  (h.cell c hc).stored_eq ((h.cell c hc).clean hd)

theorem consistent_start (stored : Option V) :
    Consistent stamp (Buffer.start stored : Buffer τ V) :=
  ⟨fun _ hc => absurd hc (by simp [Buffer.start]), fun _ => ⟨rfl, fun _ => rfl⟩⟩

theorem cellInv_opened (h : Consistent stamp B) (hv : B.cell = none → B.stored = some v) :
    CellInv stamp B (B.opened v) := by
  cases hc : B.cell with
  | some c =>
    have he : B.opened v = c := by simp [Buffer.opened, hc]
    exact he ▸ h.cell c hc
  | none =>
    have he : B.opened v = { value := v, dirty := false, revision := 0 } := by
      simp [Buffer.opened, hc]
    obtain ⟨hrev, hflight⟩ := h.fresh hc
    rw [he]
    refine ⟨hrev.le, fun _ => hv hc, fun _ => hrev, fun t => ?_⟩
    rw [hflight t]
    trivial

theorem consistent_openWith (h : Consistent stamp B) (hv : B.cell = none → B.stored = some v) :
    Consistent stamp (B.openWith v) := by
  refine ⟨?_, fun hc => absurd hc (by simp [Buffer.openWith])⟩
  rintro c ⟨⟩
  have hinv := cellInv_opened h hv
  exact ⟨hinv.stored_le, hinv.stored_eq, hinv.clean, hinv.flights⟩

theorem flightInv_congr {n : ℕ} (hvalue : c'.value = c.value)
    (hrevision : c'.revision = c.revision) (h : FlightInv stamp n c f) :
    FlightInv stamp n c' f := by
  have hbehind : ∀ snapshot revision, Behind stamp c snapshot revision →
      Behind stamp c' snapshot revision := by
    intro snapshot revision hb
    exact ⟨hrevision ▸ hb.le, fun he => hvalue ▸ hb.same (he.trans hrevision),
      fun hlt => hvalue ▸ hb.earlier (hrevision ▸ hlt)⟩
  cases f with
  | none => trivial
  | taken snapshot revision => exact hbehind snapshot revision h
  | written snapshot revision => exact ⟨hbehind snapshot revision h.1, h.2⟩

theorem behind_update (h : Behind stamp c snapshot revision) (hrev : c'.revision = c.revision + 1)
    (hlt : stamp snapshot < stamp c'.value) : Behind stamp c' snapshot revision := by
  have hle := h.le
  exact ⟨by omega, fun he => absurd he (by omega), fun _ => hlt⟩

theorem consistent_update (h : Consistent stamp B) {f : V → V}
    (hlater : StampedAfter stamp B (f (B.opened v).value)) : Consistent stamp (B.update v f) := by
  refine ⟨?_, fun hc => absurd hc (by simp [Buffer.update])⟩
  rintro c ⟨⟩
  have hrev : B.storedRevision ≤ (B.opened v).revision := by
    cases hc : B.cell with
    | some c => simpa [Buffer.opened, hc] using (h.cell c hc).stored_le
    | none => simp [Buffer.opened, hc, (h.fresh hc).1]
  refine ⟨Nat.le_succ_of_le hrev, fun he => ?_, fun hd => absurd hd (by simp), fun t => ?_⟩
  · have he : B.storedRevision = (B.opened v).revision + 1 := he
    omega
  · cases hc : B.cell with
    | none =>
      have hnone : B.flight t = .none := (h.fresh hc).2 t
      simp only [Buffer.update, hnone, FlightInv]
    | some c =>
      have he : B.opened v = c := by simp [Buffer.opened, hc]
      have hflight := (h.cell c hc).flights t
      have hstamp := hlater t
      rw [he] at hstamp ⊢
      change FlightInv stamp _ _ (B.flight t)
      cases hf : B.flight t with
      | none => trivial
      | taken snapshot revision =>
        rw [hf] at hflight hstamp
        exact behind_update hflight rfl hstamp
      | written snapshot revision =>
        rw [hf] at hflight hstamp
        exact ⟨behind_update hflight.1 rfl hstamp, hflight.2⟩

variable [DecidableEq τ]

section
variable (h : Consistent stamp B)
include h

theorem consistent_goto (t : τ)
    (hf : ∀ c ∈ B.cell, FlightInv stamp B.storedRevision c f) (hn : B.cell = none → f = .none) :
    Consistent stamp (B.goto t f) := by
  constructor
  · intro c hc
    have hinv := h.cell c hc
    refine ⟨hinv.stored_le, hinv.stored_eq, hinv.clean, fun u => ?_⟩
    by_cases hu : u = t
    · subst hu
      simpa [Buffer.goto] using hf c hc
    · simpa [Buffer.goto, hu] using hinv.flights u
  · intro hc
    refine ⟨(h.fresh hc).1, fun u => ?_⟩
    by_cases hu : u = t
    · subst hu
      simpa [Buffer.goto] using hn hc
    · simpa [Buffer.goto, hu] using (h.fresh hc).2 u

theorem consistent_take (t : τ) (hc : B.cell = some c) :
    Consistent stamp (B.goto t (.taken c.value c.revision)) := by
  refine consistent_goto h t ?_ (fun hn => absurd hn (by simp [hc]))
  intro d hd
  obtain rfl : c = d := Option.some.inj (hc.symm.trans hd)
  exact ⟨le_refl _, fun _ => rfl, fun hlt => absurd hlt (lt_irrefl _)⟩

theorem consistent_write {t : τ}
    (ht : B.flight t = .taken snapshot revision) (hle : B.storedRevision ≤ revision) :
    Consistent stamp (B.write t snapshot revision) := by
  constructor
  · intro c hc
    have hinv := h.cell c hc
    have hbehind : Behind stamp c snapshot revision := by
      have := hinv.flights t
      rwa [ht] at this
    refine ⟨hbehind.le, fun he => congrArg some (hbehind.same he), fun hd => ?_, fun u => ?_⟩
    · have hrev := hinv.clean hd
      have hup := hbehind.le
      change revision = c.revision
      omega
    · by_cases hu : u = t
      · subst hu
        simpa [Buffer.write, FlightInv] using hbehind
      · have hflight := hinv.flights u
        have hsame : (B.write t snapshot revision).flight u = B.flight u := by
          simp [Buffer.write, hu]
        rw [hsame]
        cases hf : B.flight u with
        | none => trivial
        | taken snapshot' revision' =>
          rw [hf] at hflight
          exact hflight
        | written snapshot' revision' =>
          rw [hf] at hflight
          exact ⟨hflight.1, hflight.2.trans hle⟩
  · intro hc
    rw [(h.fresh hc).2 t] at ht
    cases ht

theorem consistent_finish {t : τ}
    (ht : B.flight t = .written snapshot revision) {clears : V → Bool}
    (hclears : ∀ v, clears v = true → stamp v ≤ stamp snapshot) :
    Consistent stamp (B.finish t clears) := by
  constructor
  · intro c hc
    obtain ⟨d, hd, rfl⟩ := Option.map_eq_some_iff.mp hc
    have hinv := h.cell d hd
    have hwritten := hinv.flights t
    rw [ht] at hwritten
    have hflights : ∀ u, FlightInv stamp B.storedRevision d ((B.finish t clears).flight u) := by
      intro u
      by_cases hu : u = t
      · subst hu
        simp [Buffer.finish, FlightInv]
      · simpa [Buffer.finish, hu] using hinv.flights u
    by_cases hcl : clears d.value = true
    · rw [if_pos hcl]
      have hcurrent : revision = d.revision := by
        have hle := hwritten.1.le
        by_contra hne
        have hlt := hwritten.1.earlier (by omega)
        have hge := hclears d.value hcl
        omega
      have hrev : B.storedRevision = d.revision := by
        have hstored := hwritten.2
        have hup := hinv.stored_le
        omega
      exact ⟨hinv.stored_le, hinv.stored_eq, fun _ => hrev,
        fun u => flightInv_congr (c := d) rfl rfl (hflights u)⟩
    · rw [if_neg hcl]
      exact ⟨hinv.stored_le, hinv.stored_eq, hinv.clean, hflights⟩
  · intro hc
    have hnone : B.cell = none := by simpa [Buffer.finish] using hc
    rw [(h.fresh hnone).2 t] at ht
    cases ht

end
end NostrMash.WriteBehind
