import NostrMash.IngestGate

/-!
# Shadow mode

The two modes of the trust gate take the same path through every check and differ only where a
check turns the event down: enforcement rejects it there, shadow mode keeps it under the label
`shadowReject`.
-/

namespace NostrMash.Live

/-- The decision of shadow mode, then the one of enforcement. -/
inductive Shadows (kindLabel : String) : GateDecision → GateDecision → Prop
  | accept : Shadows kindLabel (acceptEvent kindLabel) (acceptEvent kindLabel)
  | reject (reason : GateLabel) (h : reason ≠ .accept) :
      Shadows kindLabel (rejectEvent kindLabel false reason) (rejectEvent kindLabel true reason)

namespace Shadows

variable {kindLabel : String} {d e : GateDecision}

section
variable (h : Shadows kindLabel d e)
include h

theorem accept_shadow : d.accept = true := by
  cases h <;> rfl

theorem shadowReject_iff : d.decision = .shadowReject ↔ e.accept = false := by
  cases h with
  | accept => simp [acceptEvent]
  | reject reason hr => simp [rejectEvent]

theorem accept_iff : d.decision = .accept ↔ e.accept = true := by
  cases h with
  | accept => simp [acceptEvent]
  | reject reason hr => simp [rejectEvent]

theorem filter_accept :
    (some d).filter (·.decision = .accept) = (some e).filter (·.decision = .accept) := by
  cases h with
  | accept => rfl
  | reject reason hr => simp [Option.filter, rejectEvent, hr]

theorem branch {c : Prop} [Decidable c] {d' e' : GateDecision}
    (h' : Shadows kindLabel d' e') :
    Shadows kindLabel (if c then d else d') (if c then e else e') := by
  by_cases hc : c
  · rwa [if_pos hc, if_pos hc]
  · rwa [if_neg hc, if_neg hc]

end
end Shadows

section
variable (a : GateAnswers) (kindLabel : String)

theorem shadows_evaluateAuthorGate (pubkey : String) :
    Shadows kindLabel (evaluateAuthorGate a kindLabel false pubkey)
      (evaluateAuthorGate a kindLabel true pubkey) := by
  unfold evaluateAuthorGate
  split_ifs
  · exact .reject .failClosed (by decide)
  · exact .accept
  · exact .reject .rejectUntrustedAuthor (by decide)

theorem shadows_evaluateRecipientGate (tags : List Tag) :
    Shadows kindLabel (evaluateRecipientGate a kindLabel false tags)
      (evaluateRecipientGate a kindLabel true tags) := by
  simp only [evaluateRecipientGate]
  split_ifs
  · exact .reject .rejectMissingTarget (by decide)
  · exact .reject .failClosed (by decide)
  · exact .accept
  · exact .reject .rejectUntrustedAuthor (by decide)

theorem shadows_evaluateRelayMetadataGate (pubkey relayURL : String) :
    Shadows kindLabel (evaluateRelayMetadataGate a kindLabel false pubkey relayURL)
      (evaluateRelayMetadataGate a kindLabel true pubkey relayURL) := by
  have hreject : Shadows kindLabel (rejectEvent kindLabel false .rejectUntrustedAuthor)
      (rejectEvent kindLabel true .rejectUntrustedAuthor) := .reject _ (by decide)
  unfold evaluateRelayMetadataGate
  by_cases hblank : trimSpace relayURL = ""
  · simpa only [if_pos hblank] using hreject
  · simp only [if_neg hblank]
    cases a.relayInfoPubkey relayURL with
    | none => exact hreject
    | some infoPubkey =>
      dsimp only
      split_ifs
      · exact .accept
      · exact hreject

section
variable (ids : List String)
include ids

theorem filter_evaluateTargetExistsGate :
    (evaluateTargetExistsGate a kindLabel false ids).filter (·.decision = .accept) =
      (evaluateTargetExistsGate a kindLabel true ids).filter (·.decision = .accept) := by
  unfold evaluateTargetExistsGate
  split_ifs
  · rfl
  · rfl
  · exact Shadows.filter_accept (.reject .rejectMissingTarget (by decide))

section
variable (addrs : List AddressCoordinate)
include addrs

theorem shadows_evaluateAnyTarget :
    Option.Rel (Shadows kindLabel) (evaluateAnyTarget a kindLabel false ids addrs)
      (evaluateAnyTarget a kindLabel true ids addrs) := by
  unfold evaluateAnyTarget
  by_cases hnone : ids = [] ∧ addrs = []
  · simpa only [if_pos hnone] using Option.Rel.none
  · simp only [if_neg hnone, ← filter_evaluateTargetExistsGate a kindLabel ids]
    cases hids : (evaluateTargetExistsGate a kindLabel false ids).filter (·.decision = .accept) with
    | some decision =>
      have hd : decision = acceptEvent kindLabel := by
        unfold evaluateTargetExistsGate at hids
        split_ifs at hids <;> simp_all [Option.filter, acceptEvent, rejectEvent]
      rw [hd]
      exact .some .accept
    | none =>
      dsimp only
      split_ifs
      · exact .some .accept
      · exact .some (.reject .rejectMissingTarget (by decide))

theorem shadows_acceptTargetOr
    {shadow enforced : GateDecision} (h : Shadows kindLabel shadow enforced) :
    Shadows kindLabel (acceptTargetOr a kindLabel false ids addrs shadow)
      (acceptTargetOr a kindLabel true ids addrs enforced) := by
  have hany := shadows_evaluateAnyTarget a kindLabel ids addrs
  unfold acceptTargetOr
  revert hany
  generalize evaluateAnyTarget a kindLabel false ids addrs = first,
    evaluateAnyTarget a kindLabel true ids addrs = second
  intro hany
  cases hany with
  | none => exact h
  | some hd =>
    cases hd with
    | accept => exact .accept
    | reject reason hr => simpa [Option.filter, rejectEvent, hr] using h

theorem shadows_requireTarget : Shadows kindLabel (requireTarget a kindLabel false ids addrs)
      (requireTarget a kindLabel true ids addrs) := by
  have hany := shadows_evaluateAnyTarget a kindLabel ids addrs
  unfold requireTarget
  revert hany
  generalize evaluateAnyTarget a kindLabel false ids addrs = first,
    evaluateAnyTarget a kindLabel true ids addrs = second
  intro hany
  cases hany with
  | none => exact .reject .rejectMissingTarget (by decide)
  | some hd => exact hd

end
end
end

theorem shadows_evaluateGate (a : GateAnswers) (kind : ℤ) (pubkey : String) (tags : List Tag)
    (relayURL : String) :
    Shadows (gateKindLabel kind) (evaluateGate .openMode a kind pubkey tags relayURL)
      (evaluateGate .trustedOnly a kind pubkey tags relayURL) := by
  have hauthor := shadows_evaluateAuthorGate a (gateKindLabel kind) pubkey
  have hrecipient := shadows_evaluateRecipientGate a (gateKindLabel kind) tags
  simp only [evaluateGate, reduceCtorEq, decide_false, decide_true]
  refine .branch (.branch .accept hauthor) ?_
  refine .branch hrecipient ?_
  refine .branch (shadows_acceptTargetOr a _ _ _ hrecipient) ?_
  refine .branch (shadows_evaluateRelayMetadataGate a _ pubkey relayURL) ?_
  refine .branch (shadows_requireTarget a _ _ _) ?_
  refine .branch (shadows_acceptTargetOr a _ _ _ hauthor) ?_
  refine .branch hauthor ?_
  exact .branch (shadows_requireTarget a _ _ _) .accept

/-- Shadow mode accepts every event and its label says what enforcement does with it. -/
theorem evaluateGate_openMode_predicts (a : GateAnswers) (kind : ℤ) (pubkey : String)
    (tags : List Tag) (relayURL : String) :
    (evaluateGate .openMode a kind pubkey tags relayURL).accept = true ∧
      ((evaluateGate .openMode a kind pubkey tags relayURL).decision = .shadowReject ↔
        (evaluateGate .trustedOnly a kind pubkey tags relayURL).accept = false) ∧
      ((evaluateGate .openMode a kind pubkey tags relayURL).decision = .accept ↔
        (evaluateGate .trustedOnly a kind pubkey tags relayURL).accept = true) := by
  have h := shadows_evaluateGate a kind pubkey tags relayURL
  exact ⟨h.accept_shadow, h.shadowReject_iff, h.accept_iff⟩

end NostrMash.Live
