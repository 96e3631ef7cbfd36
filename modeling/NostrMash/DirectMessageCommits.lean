import NostrMash.DirectMessageSteps

/-!
# Commits of the projections of direct messages

A transaction that commits has written every counter of its message, so that a counter which it
leaves wrong is owed another message. With the other steps this makes the invariant one of runs.
-/

namespace NostrMash.DirectMessages
open KeyedTable ReadCommitted Replaceable Session
variable {e : StoredEvent}

section
variable {cursors : Cursors} {P : List String} {T : Tables} {own own' : List Write} {p p' : Phase}
  {receiver sender : String}

/-- The transaction can commit, and a target that it has missed is not stored. -/
inductive Committing (T : Tables) : Phase → Prop
  | missing (target : String) (h : T.events.get target = none) :
    Committing T (.targetMissing target)
  | other (target : String) : Committing T (.targetOther target)
  | done (job : Job) : Committing T (.next job [])

def Phase.projects (p : Phase) (P : List String) : List String := p.source.toList ++ P

section
variable (hp : Committing T p)
include hp

section
variable (h : TxInv cursors P T own p)
include h

theorem Committing.written {j : Job}
    (hj : p.job = some j) (htouch : Touches j.message.toEventContent receiver sender) :
    Written own receiver sender := by
  refine (h.written j hj receiver sender htouch).resolve_right fun hrest => ?_
  cases hp with
  | missing => exact hrest
  | other => exact hrest
  | done => exact List.not_mem_nil hrest

theorem Committing.deletion {d : Deletion}
    (hd : .recordDeletion d ∈ own) (he : T.events.get d.targetEventID = some e)
    (htouch : Touches e.toEventContent receiver sender) : ∃ j, p = .next j [] ∧ j.projects = false ∧
      Touches j.message.toEventContent receiver sender := by
  have htarget := h.deletion d hd
  cases hp with
  | missing target hnone =>
    rw [← Option.some.inj htarget, hnone] at he
    cases he
  | other target =>
    obtain ⟨e', he', hkind⟩ := h.other target rfl
    rw [← Option.some.inj htarget, he'] at he
    cases he
    exact absurd htouch.1 hkind
  | done j =>
    cases hprojects : j.projects with
    | true => simp [Phase.target, Phase.job, hprojects] at htarget
    | false =>
      have hid : j.id = d.targetEventID := by
        simpa [Phase.target, Phase.job, hprojects] using htarget
      have hj := (h.job j rfl).1
      rw [hid, he] at hj
      cases hj
      exact ⟨j, rfl, hprojects, htouch⟩

theorem Owed.commit {source : Option String}
    (howed : Owed P T source receiver sender)
    (hsource : Written own receiver sender → p.source = none ∨ source = p.source) :
    Owed (p.projects P) (own.foldl Write.apply T) source receiver sender := by
  obtain ⟨id, e, he, hP, hne, htouch⟩ := howed
  refine ⟨id, e, by rwa [events_foldl], fun hmem => ?_, hne, htouch⟩
  rcases List.mem_append.mp hmem with hid | hold
  · have hid' : p.source = some id := Option.mem_toList.mp hid
    obtain ⟨j, hj, -, rfl⟩ := source_eq_some hid'
    have hmessage := (h.job j hj).1
    rw [he] at hmessage
    cases hmessage
    rcases hsource (hp.written h hj htouch) with hnone | hsame
    · rw [hnone] at hid'
      cases hid'
    · exact hne (hid'.symm.trans hsame.symm)
  · exact hP hold

theorem committedInv_commit (hc : CommittedInv cursors P T) :
    CommittedInv cursors (p.projects P) (own.foldl Write.apply T) where
  projected id hid := by
    rw [events_foldl]
    rcases List.mem_append.mp hid with hnew | hold
    · obtain ⟨j, hj, -, rfl⟩ := source_eq_some (Option.mem_toList.mp hnew)
      rw [(h.job j hj).1]
      rfl
    · exact hc.projected id hold
  distinct := by
    rw [events_foldl]
    exact hc.distinct
  right receiver sender hr := by
    by_cases hw : Written own receiver sender
    · refine (h.right receiver sender hw hr).imp_right fun howed => ?_
      obtain ⟨id, e, he, hP, hne, htouch⟩ := howed.commit hp h fun _ => .inr rfl
      exact ⟨id, e, he, hP, by simp, htouch⟩
    · refine (hc.right receiver sender hr).imp (fun hright => ?_) fun howed =>
        howed.commit hp h fun hw' => absurd hw' hw
      rw [Right, cnt_foldl_of_not_written hw]
      refine Eq.trans hright (congrArg List.length (unread_eq_of_deletions hr events_foldl
        fun d => ?_)).symm
      by_cases hd : Write.recordDeletion d ∈ own
      · refine .inr fun e he htouch => hw ?_
        obtain ⟨j, rfl, -, htouch'⟩ := hp.deletion h hd he htouch
        exact hp.written h rfl htouch'
      · exact .inl (mem_deletions_foldl.trans (or_iff_left hd))

end
end

theorem unread_commit (hr : ValidReceiver receiver) (hp : Committing T p)
    (h : TxInv cursors P T own p) (hfree : ∀ j, p = .next j [] → j.projects = false →
      ¬ Touches j.message.toEventContent receiver sender) :
    unread cursors (own'.foldl Write.apply (own.foldl Write.apply T)) receiver sender =
      unread cursors (own'.foldl Write.apply T) receiver sender := by
  refine unread_eq_of_deletions hr (by rw [events_foldl, events_foldl, events_foldl]) fun d => ?_
  by_cases hd : Write.recordDeletion d ∈ own
  · refine .inr fun e he htouch => ?_
    rw [events_foldl] at he
    obtain ⟨j, hj, hprojects, htouch'⟩ := hp.deletion h hd he htouch
    exact hfree j hj hprojects htouch'
  · left
    rw [mem_deletions_foldl, mem_deletions_foldl, mem_deletions_foldl, or_iff_left hd]

theorem txInv_commit (hp : Committing T p) (h : TxInv cursors P T own p)
    (h' : TxInv cursors P T own' p')
    (hexcl : ∀ receiver sender, Written own receiver sender → ¬ Written own' receiver sender)
    (hfree : ∀ j, p = .next j [] → j.projects = false → ∀ receiver sender,
      p'.Counting receiver sender → ¬ Touches j.message.toEventContent receiver sender) :
    TxInv cursors (p.projects P) (own.foldl Write.apply T) own' p' where
  idle := h'.idle
  recorded := h'.recorded
  deletion := h'.deletion
  job j hj := by
    rw [events_foldl]
    exact h'.job j hj
  other target htarget := by
    rw [events_foldl]
    exact h'.other target htarget
  valid := h'.valid
  written := h'.written
  found receiver sender rows hfound := by
    rw [unread_commit (h'.valid receiver hfound.mem_todo) hp h fun j hj hprojects =>
      hfree j hj hprojects receiver sender hfound.counting]
    exact h'.found receiver sender rows hfound
  right receiver sender hw hr := by
    have hnot : ¬ Written own receiver sender := fun hmine => hexcl receiver sender hmine hw
    refine (h'.right receiver sender hw hr).imp (fun hright => ?_) fun howed =>
      howed.commit hp h fun hmine => absurd hmine hnot
    rw [Right,
      unread_commit hr hp h fun j hj _ htouch => hnot (hp.written h (by rw [hj]; rfl) htouch),
      cnt_foldl_of_written hw T]
    exact hright

end

variable {τ : Type} [DecidableEq τ] {cursors : Cursors} {s s' : State τ} {t : τ} {eventID : String}

theorem inv_init (deletions : List Deletion) : Inv cursors (init deletions : State τ) := by
  refine ⟨holds_start ⟨fun _ h => absurd h List.not_mem_nil,
    fun _ h => absurd h List.not_mem_nil, fun receiver sender _ => .inl rfl⟩ fun _ => txInv_idle,
    exclusive_start _ _⟩

section
variable (h : Inv cursors s)
include h

theorem Inv.goto {q : Phase}
    (hq : TxInv cursors s.projected s.db.committed (s.db.own t) q) : Inv cursors (s.goto t q) :=
  ⟨holds_goto h.runs hq, exclusive_goto h.exclusive⟩

theorem Inv.write {ws : List Write} {q : Phase}
    (hs : s.write t ws q = some s')
    (hq : TxInv cursors s.projected s.db.committed (s.db.own t ++ ws) q) : Inv cursors s' := by
  obtain ⟨db, hdb, rfl⟩ := Option.map_eq_some_iff.mp hs
  exact ⟨holds_write h.runs hdb hq, exclusive_write h.exclusive hdb⟩

theorem Inv.commit (hp : Committing s.db.committed (s.db.phase t))
    (hfree : ∀ j, s.db.phase t = .next j [] → j.projects = false → ∀ u ≠ t, ∀ receiver sender,
      (s.db.phase u).Counting receiver sender →
        ¬ Touches j.message.toEventContent receiver sender) :
    Inv cursors ⟨s.db.commit schema t .idle, (s.db.phase t).projects s.projected⟩ := by
  refine ⟨holds_commit (committedInv_commit hp (h.runs.2 t) h.runs.1) txInv_idle
    fun u hu => ?_, exclusive_commit h.exclusive⟩
  refine txInv_commit hp (h.runs.2 t) (h.runs.2 u) ?_ fun j hj hprojects receiver sender hcount =>
    hfree j hj hprojects u hu receiver sender hcount
  rintro receiver sender ⟨row, hrow⟩ ⟨row', hrow'⟩
  exact h.exclusive t u (Ne.symm hu) _ hrow _ hrow' rfl

theorem inv_store {id : String} (hs : step cursors s (.store id e) = some s')
    (hg : Settled s (.store id e)) :
    Inv cursors s' := by
  simp only [step] at hs
  split_ifs at hs with hid
  cases hs
  refine ⟨⟨committedInv_stored h.runs.1 hid fun hkind => (hg hkind).1, fun t => ?_⟩, h.exclusive⟩
  exact txInv_stored (h.runs.2 t) h.runs.1.projected hid
    fun receiver sender hcount htouch => (hg htouch.1).2 t receiver sender hcount htouch

theorem inv_project (hs : step cursors s (.project t eventID) = some s') :
    Inv cursors s' := by
  cases hp : s.db.phase t with
  | idle =>
    have hown : s.db.own t = [] := (h.runs.2 t).idle hp
    simp only [step, hp, startProjection] at hs
    cases he : s.db.committed.events.get (trimSpace eventID) with
    | none => simp [he] at hs
    | some e =>
      simp only [he] at hs
      split_ifs at hs with hno hempty
      · cases hs
        exact ⟨⟨committedInv_cons_of_empty h.runs.1 he hempty,
          fun u => txInv_cons_of_empty (h.runs.2 u) he hempty⟩, h.exclusive⟩
      · cases hs
        refine h.goto (txInv_next he (not_not.mp (not_or.mp hno).2) ?_ ?_)
        · rintro receiver sender ⟨row, hrow⟩
          rw [hown] at hrow
          exact List.not_mem_nil hrow
        · intro d hd
          rw [hown] at hd
          cases hd
  | _ => simp [step, hp] at hs

theorem inv_projectDeletion
    (hs : step cursors s (.projectDeletion t eventID) = some s') : Inv cursors s' := by
  cases hp : s.db.phase t with
  | idle =>
    have hown : s.db.own t = [] := (h.runs.2 t).idle hp
    simp only [step, hp, startDeletion] at hs
    cases he : s.db.committed.events.get (trimSpace eventID) with
    | none => simp [he] at hs
    | some e =>
      cases htarget : deletionTarget e.toEventContent with
      | none => simp [he, htarget] at hs
      | some target =>
        simp only [he, htarget] at hs
        split_ifs at hs
        refine h.write hs ?_
        rw [hown]
        exact txInv_deletionRecorded _
  | _ => simp [step, hp] at hs

theorem inv_loadTarget (hs : step cursors s (.loadTarget t) = some s') :
    Inv cursors s' := by
  cases hp : s.db.phase t with
  | deletionRecorded target =>
    simp only [step, hp] at hs
    cases hs
    obtain ⟨d, hown, rfl⟩ := (h.runs.2 t).recorded target hp
    have hview : loadTarget (s.db.view schema t) d.targetEventID =
        loadTarget s.db.committed d.targetEventID := by
      unfold loadTarget Session.view
      rw [show (s.db.own t).foldl schema.apply s.db.committed =
        (s.db.own t).foldl Write.apply s.db.committed from rfl, events_foldl]
    rw [hview]
    refine h.goto ?_
    rw [hown]
    exact txInv_loadTarget d
  | _ => simp [step, hp] at hs

theorem inv_commit (hs : step cursors s (.commit t) = some s')
    (hg : Settled s (.commit t)) : Inv cursors s' := by
  cases hp : s.db.phase t with
  | targetMissing target =>
    simp only [step, hp] at hs
    cases hs
    simp only [Settled, hp] at hg
    have hinv := h.commit (t := t) (by rw [hp]; exact .missing target hg) (by rw [hp]; simp)
    rwa [hp] at hinv
  | targetOther target =>
    simp only [step, hp] at hs
    cases hs
    have hinv := h.commit (t := t) (by rw [hp]; exact .other target) (by rw [hp]; simp)
    rwa [hp] at hinv
  | next job todo =>
    cases todo with
    | nil =>
      simp only [step, hp] at hs
      cases hs
      simp only [Settled, hp] at hg
      have hinv := h.commit (t := t) (by rw [hp]; exact .done job) fun j hj hprojects => by
        obtain ⟨rfl, -⟩ := Phase.next.inj (hp.symm.trans hj)
        exact hg hprojects
      rw [hp] at hinv
      cases hprojects : job.projects <;>
        simpa [Phase.projects, Phase.source, Phase.job, hprojects] using hinv
    | cons receiver todo => simp [step, hp] at hs
  | _ => simp [step, hp] at hs

theorem inv_step (a : Act τ) (hg : Settled s a)
    (hs : step cursors s a = some s') : Inv cursors s' := by
  cases a with
  | store id e => exact inv_store h hs hg
  | project t eventID => exact inv_project h hs
  | projectDeletion t eventID => exact inv_projectDeletion h hs
  | loadTarget t => exact inv_loadTarget h hs
  | countPair t =>
    dsimp only [step] at hs
    split at hs
    · rename_i hp
      cases hs
      exact h.goto (txInv_pairCounted (hp ▸ h.runs.2 t))
    · cases hs
  | writePair t =>
    dsimp only [step] at hs
    split at hs
    · rename_i hp
      exact h.write hs (txInv_pairWritten (hp ▸ h.runs.2 t))
    · cases hs
  | countAll t =>
    dsimp only [step] at hs
    split at hs
    · rename_i hp
      cases hs
      exact h.goto (txInv_allCounted (hp ▸ h.runs.2 t))
    · cases hs
  | writeAll t =>
    dsimp only [step] at hs
    split at hs
    · rename_i hp
      exact h.write hs (txInv_allWritten (hp ▸ h.runs.2 t))
    · cases hs
  | commit t => exact inv_commit h hs hg
  | rollback t =>
    cases hs
    exact ⟨holds_rollback h.runs txInv_idle, exclusive_rollback h.exclusive⟩

end
end NostrMash.DirectMessages
