import NostrMash.Machine
import NostrMash.ReadCommitted
import NostrMash.AccountTable
import Mathlib.Data.Fintype.Defs

/-!
# The writers of account states

Recompute cycles, manual overrides, promotions to tracked and observation batches run side by side
under READ COMMITTED.
-/

namespace NostrMash.Account
open ReadCommitted

namespace Table

def updated (T : Table) (p : Pubkey) (f : Row → Row) : List Row := ((T.find p).map f).toList

def inserted (T : Table) (r : Row) : List Row := if (T.find r.pubkey).isSome then [] else [r]

def observedRow (T : Table) (now : ℤ) (p : Pubkey) (delta : ℤ) : Row :=
  match T.find p with
  | some r => { r with observedCount := r.observedCount + delta }
  | none => { Row.unknownAccountState now p with observedCount := delta }

end Table

def observations (deltas : List (String × ℤ)) : List (Pubkey × ℤ) :=
  deltas.filterMap fun (d : String × ℤ) =>
    match normalizePubkey d.1 with
    | .ok p => if d.2 ≤ 0 then none else some (p, d.2)
    | .error _ => none

def overrideArg (override : String) : Option (Option State) :=
  if toLower (trimSpace override) = "" then some none
  else (State.ofText (toLower (trimSpace override))).map some

def schema : Schema Table Row Pubkey where
  apply := Table.put
  row := Row.pubkey

inductive Phase where
  | idle
  /-- A recompute cycle between two rows. -/
  | recomputing (todo : List SignalRow)
  | applying (now : ℤ) (row : SignalRow) (todo : List SignalRow)
  | applied (todo : List SignalRow)
  | overriding (now : ℤ) (p : Pubkey) (override : String)
  | overrideMissing (now : ℤ) (p : Pubkey) (override : String)
  | overrideLoaded (now : ℤ) (p : Pubkey) (override : String) (derived : State)
  | promoting (now : ℤ) (p : Pubkey)
  | promoteLoaded (now : ℤ) (p : Pubkey)
  /-- An override or a promotion before its commit. -/
  | written
  deriving DecidableEq

inductive Action (τ : Type*) where
  | list (t : τ) (P : Projections) (cfg : RecomputeConfig) (now : ℤ) (heap : List Row)
  | next (t : τ) (now : ℤ)
  | applyUpdate (t : τ)
  | beginOverride (t : τ) (now : ℤ) (pubkey override : String)
  | loadForOverride (t : τ)
  | insertUnknown (t : τ)
  | applyOverride (t : τ)
  | beginPromote (t : τ) (now : ℤ) (pubkey : String)
  | insertTracked (t : τ)
  | promote (t : τ)
  | observe (t : τ) (now : ℤ) (deltas : List (String × ℤ))
  | commit (t : τ)
  | rollback (t : τ)

abbrev Database (τ : Type*) := Session τ Table Row Phase

variable {τ : Type*} [DecidableEq τ]

def step (s : Database τ) : Action τ → Option (Database τ)
  | .list t P cfg now heap =>
    match s.phase t with
    | .idle =>
      if heap.Perm (s.view schema t).rows then
        some (s.goto t (.recomputing
          (listAccountSignalsForRecompute P heap cfg.batchSize (cfg.staleBefore now))))
      else none
    | _ => none
  | .next t now =>
    match s.phase t with
    | .recomputing [] => some (s.goto t .idle)
    | .recomputing (row :: todo) =>
      if row.Unchanged then some (s.goto t (.recomputing todo))
      else some (s.goto t (.applying now row todo))
    | _ => none
  | .applyUpdate t =>
    match s.phase t with
    | .applying now row todo =>
      s.write schema t ((s.view schema t).updated row.pubkey
        (Row.applyAccountStateUpdate now row.derived row.effective)) (.applied todo)
    | _ => none
  | .beginOverride t now pubkey override =>
    match s.phase t, normalizePubkey pubkey with
    | .idle, .ok p => some (s.goto t (.overriding now p override))
    | _, _ => none
  | .loadForOverride t =>
    match s.phase t with
    | .overriding now p override =>
      match (s.view schema t).find p with
      | some r => some (s.goto t (.overrideLoaded now p override r.derivedState))
      | none => some (s.goto t (.overrideMissing now p override))
    | _ => none
  | .insertUnknown t =>
    match s.phase t with
    | .overrideMissing now p override =>
      s.write schema t ((s.view schema t).inserted (Row.unknownAccountState now p))
        (.overrideLoaded now p override .unknown)
    | _ => none
  | .applyOverride t =>
    match s.phase t with
    | .overrideLoaded now p override derived =>
      match overrideArg override with
      | some arg =>
        s.write schema t ((s.view schema t).updated p
          (Row.applyAccountManualOverride now arg (arg.getD derived))) .written
      | none => none
    | _ => none
  | .beginPromote t now pubkey =>
    match s.phase t, normalizePubkey pubkey with
    | .idle, .ok p => some (s.goto t (.promoting now p))
    | _, _ => none
  | .insertTracked t =>
    match s.phase t with
    | .promoting now p =>
      s.write schema t ((s.view schema t).inserted (Row.trackedAccountState now p))
        (.promoteLoaded now p)
    | _ => none
  | .promote t =>
    match s.phase t with
    | .promoteLoaded now p =>
      s.write schema t ((s.view schema t).updated p (Row.promoteAccountToTracked now)) .written
    | _ => none
  | .observe t now deltas =>
    match s.phase t with
    | .idle =>
      if ((observations deltas).map (·.1)).Nodup then
        (s.write schema t ((observations deltas).map fun d =>
          (s.view schema t).observedRow now d.1 d.2) .idle).map (·.commit schema t .idle)
      else none
    | _ => none
  | .commit t =>
    match s.phase t with
    | .applied todo => some (s.commit schema t (.recomputing todo))
    | .written => some (s.commit schema t .idle)
    | _ => none
  | .rollback t =>
    match s.phase t with
    | .idle => none
    | .recomputing _ => none
    | .applying _ _ todo => some (s.rollback t (.recomputing todo))
    | .applied todo => some (s.rollback t (.recomputing todo))
    | _ => some (s.rollback t .idle)

/-- The condition on the two updates that write a state computed from an earlier read: the override
and the mark a recompute has read still stand, and an override is cleared only on an account that
is not tracked and whose derived state is the one that was read. -/
def Fresh (s : Database τ) : Action τ → Prop
  | .applyUpdate t =>
    match s.phase t with
    | .applying _ row _ => ∀ r ∈ (s.view schema t).find row.pubkey,
        r.manualOverride = row.manualOverride ∧
          (r.manualOverride = none → r.tracked = row.tracked)
    | _ => True
  | .applyOverride t =>
    match s.phase t with
    | .overrideLoaded _ p override derived => overrideArg override = some none →
        ∀ r ∈ (s.view schema t).find p, r.tracked = false ∧ r.derivedState = derived
    | _ => True
  | _ => True

instance (s : Database τ) (a : Action τ) : Decidable (Fresh s a) := by
  unfold Fresh
  split
  · split <;> infer_instance
  · split <;> infer_instance
  · infer_instance

end NostrMash.Account
