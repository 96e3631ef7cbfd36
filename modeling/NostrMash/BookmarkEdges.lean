import NostrMash.BookmarkLists

/-!
# Bookmark edges follow the current list

A list that was current when its job looked may have been replaced when the job gets the lock. If
no job takes the lock for a list that was replaced, then the rows of an address are those of its
current list as soon as all jobs are done.
-/

namespace NostrMash.Bookmarks
open AuthorStats Replaceable

theorem resolve_congr {state state' : Address → Option Winner}
    (h : ∀ B, B.kind = 30023 → state B = state' B) (targets : List BookmarkTarget) :
    resolveBookmarkAddresses state targets = resolveBookmarkAddresses state' targets := by
  unfold resolveBookmarkAddresses resolveTarget
  simp only [h]

section
variable {τ : Type} [DecidableEq τ] (stored : String → Option EventContent) (event : τ → String)
  (A : Address)

def currentEdges (T : Tables) : List BookmarkEdge :=
  match T.replaceable.state A with
  | none => []
  | some w =>
    match stored w.eventID with
    | none => []
    | some e =>
      edgeRows A ⟨w.eventID, e.createdAt⟩
        (resolveBookmarkAddresses T.replaceable.state (bookmarkTargetsFromTags e.tags))

variable {stored A} in
theorem currentEdges_eq {T : Tables} {e : EventContent}
    (hstate : T.replaceable.state A = some w) (hstored : stored w.eventID = some e) :
    currentEdges stored A T = edgeRows A ⟨w.eventID, e.createdAt⟩
      (resolveBookmarkAddresses T.replaceable.state (bookmarkTargetsFromTags e.tags)) := by
  simp only [currentEdges, hstate, hstored]

/-- The rows of the address are those of its current event. -/
def Follows (T : Tables) : Prop :=
  ∀ row, row.source = A → (row ∈ T.edges ↔ row ∈ currentEdges stored A T)

def OfAddress : Prop :=
  ∀ t, ∃ e w, loaded stored (event t) = some (e, some ⟨A, w⟩)

/-- A job that takes the lock is still that of the current event. -/
def StillCurrent (s : State τ) : Act τ → Prop
  | .next t => s.phase t = .current →
      (s.committed.replaceable.state A).any (·.eventID = trimSpace (event t)) = true
  | .fail _ => True

instance (s : State τ) : (a : Act τ) → Decidable (StillCurrent event A s a)
  | .next _ => inferInstanceAs (Decidable (_ → _))
  | .fail _ => isTrue trivial

end

variable {τ : Type} [DecidableEq τ] {stored : String → Option EventContent} {event : τ → String}
  {A : Address} {articles : Address → Option Winner}

def Phase.Holding : Phase → Prop
  | .locked | .resolved _ | .deleted _ | .inserted => True
  | _ => False

def targetsOf (articles : Address → Option Winner) (e : EventContent) : List BookmarkTarget :=
  resolveBookmarkAddresses articles (bookmarkTargetsFromTags e.tags)

def openWrites (articles : Address → Option Winner) (e : EventContent) (v : Version) :
    Phase → List Write
  | .upserted => [.upsertState v]
  | .loserQueued => [.upsertState v, .queueLoser v]
  | .locked | .resolved _ => [.lockPubkeyForWrite v.address.pubkey]
  | .deleted _ => [.lockPubkeyForWrite v.address.pubkey, .deleteEdges v.address]
  | .inserted => [.lockPubkeyForWrite v.address.pubkey, .deleteEdges v.address,
      .insertEdges v.address (edgeRows v.address v.row (targetsOf articles e))]
  | _ => []

def Phase.Resolved (targets : List BookmarkTarget) : Phase → Prop
  | .resolved found | .deleted found => found = targets
  | _ => True

def Job (stored : String → Option EventContent) (event : τ → String)
    (articles : Address → Option Winner) (t : τ) (_ : Tables) (own : List Write) (p : Phase) :
    Prop :=
  ∀ e v, loaded stored (event t) = some (e, some v) →
    own = openWrites articles e v p ∧ p.Resolved (targetsOf articles e)

def SameArticles (articles : Address → Option Winner) (T : Tables) : Prop :=
  ∀ B, B.kind = 30023 → T.replaceable.state B = articles B

def Owed (event : τ → String) (A : Address) (s : State τ) : Prop :=
  ∃ t, s.phase t ≠ .done ∧
    (s.committed.replaceable.state A).any (·.eventID = trimSpace (event t)) = true

structure Inv (stored : String → Option EventContent) (event : τ → String) (A : Address)
    (articles : Address → Option Winner) (s : State τ) : Prop where
  jobs : s.Holds (SameArticles articles) (Job stored event articles)
  exclusive : ∀ t u, (s.phase t).Holding → (s.phase u).Holding → t = u
  follows : Follows stored A s.committed ∨ Owed event A s
  holding : ∀ t, (s.phase t).Holding → Owed event A s

variable {s s' : State τ} {t : τ} {e : EventContent} {w : Winner} {q : Phase}

omit [DecidableEq τ] in
theorem eventID_of_loaded {v : Version} (h : loaded stored (event t) = some (e, some v)) :
    v.row.eventID = trimSpace (event t) ∧ stored (trimSpace (event t)) = some e ∧
      v.row.createdAt = e.createdAt := by
  unfold loaded at h
  split_ifs at h
  obtain ⟨e', he', heq⟩ := Option.map_eq_some_iff.mp h
  obtain ⟨rfl, hv⟩ := Prod.mk.inj heq
  rw [version, he', Option.bind_some] at hv
  obtain ⟨B, -, rfl⟩ := Option.map_eq_some_iff.mp hv
  exact ⟨rfl, he', rfl⟩

theorem Owed.update (h : Owed event A s)
    (hstate : s'.committed.replaceable.state A = s.committed.replaceable.state A)
    (hphase : s'.phase = Function.update s.phase t q) (hq : q = .done →
      (s.committed.replaceable.state A).any (·.eventID = trimSpace (event t)) = false) :
    Owed event A s' := by
  obtain ⟨u, hu, hcurrent⟩ := h
  refine ⟨u, ?_, hstate ▸ hcurrent⟩
  rw [hphase]
  by_cases hut : u = t
  · subst hut
    rw [Function.update_self]
    intro hdone
    rw [hq hdone] at hcurrent
    exact Bool.noConfusion hcurrent
  · rwa [Function.update_of_ne hut]

theorem holding_of_update {u : τ} (hphase : s'.phase = Function.update s.phase t q)
    (hq : q.Holding → (s.phase t).Holding) (hu : (s'.phase u).Holding) : (s.phase u).Holding := by
  rw [hphase] at hu
  by_cases hut : u = t
  · subst hut
    rw [Function.update_self] at hu
    exact hq hu
  · rwa [Function.update_of_ne hut] at hu

theorem Inv.quiet (h : Inv stored event A articles s)
    (hjobs : s'.Holds (SameArticles articles) (Job stored event articles))
    (hcommitted : s'.committed = s.committed) (hphase : s'.phase = Function.update s.phase t q)
    (hdone : q = .done →
      (s.committed.replaceable.state A).any (·.eventID = trimSpace (event t)) = false)
    (hq : q.Holding → (s.phase t).Holding) : Inv stored event A articles s' := by
  have howed : Owed event A s → Owed event A s' := fun ho =>
    ho.update (congrArg (·.replaceable.state A) hcommitted) hphase hdone
  have hheld : ∀ u, (s'.phase u).Holding → (s.phase u).Holding :=
    fun _ => holding_of_update hphase hq
  exact ⟨hjobs, fun u u' hu hu' => h.exclusive u u' (hheld u hu) (hheld u' hu'),
    h.follows.imp (fun hf => hcommitted ▸ hf) howed, fun u hu => howed (h.holding u (hheld u hu))⟩

end NostrMash.Bookmarks
