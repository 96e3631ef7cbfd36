import NostrMash.PublicCache

/-!
# What the requests for a cached response get

The error of a build goes to everybody who waits for it, so a client whose cancelled context ended
the build fails the others. The lifetimes of the header are those of a new entry, whatever the age
of the payload that is sent.
-/

namespace NostrMash.PublicCache
open Machine Option List
variable {κ ι : Type*} [DecidableEq κ] [DecidableEq ι] {ttl : κ → ℤ}
  {s s' : State κ ι} {a : Action κ ι} {key : κ}

section

/-- What an action asks of a condition on the requests that have been answered or have failed. -/
def Permits (P : Phase κ → Prop) (s : State κ ι) : Action κ ι → Prop
  | .arrive _ key => ∀ e ∈ (s.cache.get s.clock key).1, P (.answered key e.built s.clock)
  | .lookup key => ∀ i, s.phase (.request i) = .waiting key →
    ∀ e ∈ (s.cache.get s.clock key).1, s.clock < e.expiresAt →
      P (.answered key e.built s.clock)
  | .finish key result => ∀ i, s.phase (.request i) = .waiting key →
    P (s.outcome key (result.map (⟨·, s.clock⟩)) (.request i))
  | _ => True

variable {P : Phase κ → Prop}

omit [DecidableEq κ] in
theorem good_goto (hs : ∀ i, P (s.phase (.request i))) (task : Task ι) {p : Phase κ}
    (hp : P p) : ∀ i, P ((s.goto task p).phase (.request i)) := by
  intro i
  by_cases hi : Task.request i = task
  · simpa [State.goto, hi] using hp
  · simpa [State.goto, hi] using hs i

omit [DecidableEq ι] in
theorem good_deliver (hs : ∀ i, P (s.phase (.request i))) (key : κ) (result : Option Built) :
    (∀ i, P ((s.deliver key result).phase (.request i))) ↔
      ∀ i, s.phase (.request i) = .waiting key → P (s.outcome key result (.request i)) := by
  refine forall_congr' fun i => ?_
  by_cases hi : s.phase (.request i) = .waiting key
  · simp [State.deliver, hi]
  · simpa [State.deliver, hi] using hs i

theorem good_step_iff (hmissed : ∀ key, P (.missed key)) (hwaiting : ∀ key, P (.waiting key))
    (hs : ∀ i, P (s.phase (.request i))) (h : step ttl s a = some s') :
    (∀ i, P (s'.phase (.request i))) ↔ Permits P s a := by
  cases a with
  | tick elapsed | cancel i =>
    cases h
    exact iff_of_true hs trivial
  | arrive i key =>
    simp only [step, ite_none_left_eq_some] at h
    obtain ⟨-, h⟩ := h
    split at h <;> rename_i hget <;> obtain rfl := Option.some.inj h
    · refine iff_of_true (good_goto hs _ (hmissed key)) ?_
      simp [Permits, hget]
    · rename_i e cache
      have hpermits : Permits P s (.arrive i key) ↔ P (.answered key e.built s.clock) := by
        simp [Permits, hget]
      rw [hpermits]
      refine ⟨fun hall => ?_, fun hgood => ?_⟩
      · have hi := hall i
        split_ifs at hi <;> simpa [State.goto] using hi
      · have hserved := good_goto (s := { s with cache }) hs (.request i) hgood
        split_ifs
        · exact hserved
        · exact good_goto hserved _ (hmissed key)
  | join task =>
    simp only [step] at h
    split at h
    · cases h
      exact iff_of_true (good_goto hs _ (hwaiting _)) trivial
    · exact nomatch h
  | lookup key =>
    simp only [step] at h
    split at h
    · simp only [ite_none_left_eq_some] at h
      obtain ⟨-, h⟩ := h
      split at h <;> rename_i hfresh <;> obtain rfl := Option.some.inj h
      · rename_i e
        obtain ⟨hget, he⟩ := filter_eq_some_iff.mp hfresh
        rw [good_deliver hs]
        simp [Permits, hget, of_decide_eq_true he, State.outcome]
      · refine iff_of_true hs fun i _ e he hlt => ?_
        exact absurd (decide_eq_true hlt) (filter_eq_none_iff.mp hfresh e he)
    · exact nomatch h
  | finish key result =>
    simp only [step] at h
    split at h
    · simp only [ite_none_left_eq_some] at h
      obtain ⟨-, h⟩ := h
      cases result with
      | some payload =>
        cases h
        exact good_deliver (s := { s with cache := _ }) hs key (some ⟨payload, s.clock⟩)
      | none =>
        simp only [ite_none_right_eq_some, Option.some.injEq] at h
        obtain ⟨-, rfl⟩ := h
        exact good_deliver hs key _
    · exact nomatch h

end

/-- Only requests whose own context was cancelled before the build ended have failed. -/
def State.Served (s : State κ ι) : Prop := ∀ i, s.phase (.request i) ≠ .failed false

/-- When a build fails, as it may when the context of its leader is done, the contexts of all
requests that wait for it are cancelled too. -/
def SharesCancellation (s : State κ ι) : Action κ ι → Prop
  | .finish key none =>
    (∃ flight, s.flights key = some flight ∧ flight.building = true ∧ s.contextDone flight = true) →
      ∀ i, s.phase (.request i) = .waiting key → s.cancelled i = true
  | _ => True

theorem served_step_iff (hs : s.Served) (h : step ttl s a = some s') :
    s'.Served ↔ SharesCancellation s a := by
  rw [State.Served, good_step_iff (P := (· ≠ .failed false)) (fun _ => nofun) (fun _ => nofun) hs h]
  cases a with
  | finish key result =>
    cases result with
    | some payload => exact iff_of_true (fun _ _ => nofun) trivial
    | none =>
      simp only [step] at h
      split at h
      · rename_i flight hflight
        simp only [ite_none_left_eq_some, ite_none_right_eq_some] at h
        have hbuilding : flight.building = true := by simpa using h.1
        constructor
        · intro hall _ i hi
          simpa [State.outcome, State.taskCancelled] using hall i hi
        · intro hg i hi
          simp [State.outcome, State.taskCancelled, hg ⟨flight, hflight, hbuilding, h.2.1⟩ i hi]
      · exact nomatch h
  | _ => exact iff_of_true (by simp [Permits]) trivial

/-- No request fails because of another one exactly when, whenever a build fails, the contexts of
all requests that wait for it are cancelled. -/
theorem served_iff_sharesCancellation (ttl : κ → ℤ) (maxEntries : ℕ) (actions : List (Action κ ι)) :
    Always (step ttl) State.Served (init κ ι maxEntries) actions ↔
      Guarded (step ttl) SharesCancellation (init κ ι maxEntries) actions := by
  refine always_iff_guarded (J := fun _ => True) (fun _ _ _ _ _ => trivial)
    (fun s a t _ hs h => served_step_iff hs h) (fun s a _ _ h => ?_) trivial fun _ => nofun
  cases a with
  | finish key result =>
    cases result with
    | some payload => trivial
    | none =>
      rintro ⟨flight, hflight, hbuilding, hdone⟩
      simp [step, hflight, hbuilding, hdone] at h
  | _ => trivial

/-- The first client leaves while the second one waits for its build. -/
theorem leader_cancelled_not_served :
    ¬ Always (step fun _ : Unit => 60 * second) State.Served (init Unit Bool 256)
      [.arrive false (), .join (.request false), .lookup (), .arrive true (),
        .join (.request true), .cancel false, .finish () none] := by
  intro h
  exact h _ (prefix_refl _) _ rfl true rfl

variable (ttl)

/-- Whenever the response may be served downstream, its payload is at most as old as the process
itself would serve it. -/
def Sound (key : κ) (built : Built) (sentAt : ℤ) : Prop :=
  ∀ header ∈ setPublicCacheControl (ttl key), ∀ m ≤ sentAt + header.lifetime,
    m - built.builtAt ≤ ttl key + staleGraceFor (ttl key)

def NoStaler (s : State κ ι) : Prop :=
  ∀ i key built sentAt, s.phase (.request i) = .answered key built sentAt →
    Sound ttl key built sentAt

/-- What remains of the entry covers the lifetimes of the header. -/
def Outlives (now : ℤ) (key : κ) (e : Entry) : Prop :=
  ∀ header ∈ setPublicCacheControl (ttl key), now + header.lifetime ≤ e.staleUntil

/-- A payload from the cache is sent only if its entry outlives the response. -/
def SendsCovered (s : State κ ι) : Action κ ι → Prop
  | .arrive i key => s.phase (.request i) = .idle →
    ∀ e ∈ (s.cache.get s.clock key).1, Outlives ttl s.clock key e
  | .lookup key => (∃ flight, s.flights key = some flight ∧ flight.building = false) →
    ∀ i, s.phase (.request i) = .waiting key →
      ∀ e ∈ (s.cache.get s.clock key).1, s.clock < e.expiresAt → Outlives ttl s.clock key e
  | _ => True

def Stored (c : Cache κ) : Prop :=
  ∀ p ∈ c.entries, p.2.staleUntil = p.2.built.builtAt + (ttl p.1 + staleGraceFor (ttl p.1))

variable {ttl} {c : Cache κ} {now : ℤ}

theorem mem_of_get {e : Entry} (h : e ∈ (c.get now key).1) : (key, e) ∈ c.entries := by
  unfold Cache.get at h
  split at h
  · exact nomatch h
  · rename_i e' hlookup
    split_ifs at h
    · exact nomatch h
    · cases h
      obtain ⟨before, after, hentries, -⟩ := lookup_eq_some_iff.mp hlookup
      simp [hentries]

theorem get_subset : (c.get now key).2.entries ⊆ c.entries := by
  unfold Cache.get
  split
  · exact List.Subset.refl _
  · split_ifs
    · exact fun p hp => mem_of_mem_filter hp
    · exact List.Subset.refl _

theorem evictOldest_subset : c.evictOldest.entries ⊆ c.entries := by
  unfold Cache.evictOldest
  split
  · exact List.Subset.refl _
  · exact fun p hp => mem_of_mem_filter hp

theorem stored_set (h : Stored ttl c) (key : κ) (payload : Payload) :
    Stored ttl (c.set now key ⟨payload, now⟩ (ttl key)) := by
  unfold Cache.set
  split_ifs with hpos
  · exact h
  · intro p hp
    rcases mem_cons.mp hp with rfl | hp
    · rfl
    · have hlive : ∀ p ∈ (c.deleteExpired now).entries, p ∈ c.entries :=
        fun p hp => mem_of_mem_filter hp
      have hroom := mem_of_mem_filter hp
      refine h p (hlive p ?_)
      split_ifs at hroom
      · exact evictOldest_subset hroom
      · exact hroom

theorem stored_step (h : Stored ttl s.cache) (hstep : step ttl s a = some s') :
    Stored ttl s'.cache := by
  have hget : ∀ key, Stored ttl (s.cache.get s.clock key).2 :=
    fun key p hp => h p (get_subset hp)
  cases a with
  | tick elapsed | cancel i =>
    cases hstep
    exact h
  | arrive i key =>
    simp only [step, ite_none_left_eq_some] at hstep
    obtain ⟨-, hstep⟩ := hstep
    have hcache := hget key
    split at hstep <;> rename_i heq <;> rw [heq] at hcache <;> obtain rfl := Option.some.inj hstep
    · exact hcache
    · split_ifs <;> exact hcache
  | join task =>
    simp only [step] at hstep
    split at hstep
    · cases hstep
      exact h
    · exact nomatch hstep
  | lookup key =>
    simp only [step] at hstep
    split at hstep
    · simp only [ite_none_left_eq_some] at hstep
      obtain ⟨-, hstep⟩ := hstep
      split at hstep <;> obtain rfl := Option.some.inj hstep
      · exact h
      · exact hget key
    · exact nomatch hstep
  | finish key result =>
    simp only [step] at hstep
    split at hstep
    · simp only [ite_none_left_eq_some] at hstep
      obtain ⟨-, hstep⟩ := hstep
      cases result with
      | some payload =>
        cases hstep
        simp only [State.deliver]
        split_ifs
        · exact stored_set h key payload
        · exact h
      | none =>
        simp only [ite_none_right_eq_some, Option.some.injEq] at hstep
        obtain ⟨-, rfl⟩ := hstep
        exact h
    · exact nomatch hstep

theorem sound_iff_outlives (h : Stored ttl c) {e : Entry} (he : e ∈ (c.get now key).1) :
    Sound ttl key e.built now ↔ Outlives ttl now key e := by
  have hentry : e.staleUntil = e.built.builtAt + (ttl key + staleGraceFor (ttl key)) :=
    h _ (mem_of_get he)
  refine forall₂_congr fun header _ => ?_
  rw [hentry]
  constructor
  · intro hall
    have hlast := hall _ le_rfl
    omega
  · intro hcover m hm
    omega

omit [DecidableEq κ] in
theorem sound_of_built (payload : Payload) : Sound ttl key ⟨payload, now⟩ now := by
  intro header hheader m hm
  have hdiv : ∀ d : ℤ, d / second * second ≤ d := fun d => Int.ediv_mul_le d (by decide)
  have hlife : header.lifetime ≤ ttl key + staleGraceFor (ttl key) := by
    unfold setPublicCacheControl at hheader
    split_ifs at hheader
    · exact nomatch hheader
    · cases hheader
      rw [CacheControl.lifetime, Int.add_mul]
      exact Int.add_le_add (hdiv _) (hdiv _)
  show m - now ≤ _
  omega

theorem noStaler_step_iff (h : Stored ttl s.cache) (hs : NoStaler ttl s)
    (hstep : step ttl s a = some s') : NoStaler ttl s' ↔ SendsCovered ttl s a := by
  have hgood := good_step_iff (P := fun p => ∀ key built sentAt,
    p = .answered key built sentAt → Sound ttl key built sentAt) (fun _ => nofun) (fun _ => nofun)
    hs hstep
  refine hgood.trans ?_
  have hanswered : ∀ {key built now}, (∀ key' built' sentAt,
      Phase.answered key built now = .answered key' built' sentAt →
        Sound ttl key' built' sentAt) ↔ Sound ttl key built now := by
    refine ⟨fun hall => hall _ _ _ rfl, ?_⟩
    rintro hsound _ _ _ ⟨⟩
    exact hsound
  cases a with
  | arrive i key =>
    simp only [step, ite_none_left_eq_some] at hstep
    have hidle : s.phase (.request i) = .idle := not_not.mp hstep.1
    simp only [Permits, SendsCovered, hanswered, hidle, forall_const]
    exact forall₂_congr fun e he => sound_iff_outlives h he
  | lookup key =>
    simp only [step] at hstep
    split at hstep
    · rename_i flight hflight
      simp only [ite_none_left_eq_some, Bool.not_eq_true] at hstep
      have hready : ∃ flight, s.flights key = some flight ∧ flight.building = false :=
        ⟨flight, hflight, hstep.1⟩
      simp only [Permits, SendsCovered, hanswered, hready, forall_const]
      refine forall₂_congr fun i _ => forall₂_congr fun e he => forall_congr' fun _ => ?_
      exact sound_iff_outlives h he
    · exact nomatch hstep
  | finish key result =>
    refine iff_of_true (fun i _ => ?_) trivial
    cases result with
    | some payload => exact hanswered.mpr (sound_of_built payload)
    | none => exact nofun
  | _ => exact Iff.rfl

/-- Downstream caches are no staler than the process exactly when no payload from the cache is sent
whose entry ends before the lifetimes of the header do. -/
theorem noStaler_iff_sendsCovered (ttl : κ → ℤ) (maxEntries : ℕ) (actions : List (Action κ ι)) :
    Always (step ttl) (NoStaler ttl) (init κ ι maxEntries) actions ↔
      Guarded (step ttl) (SendsCovered ttl) (init κ ι maxEntries) actions := by
  refine always_iff_guarded (J := fun s => Stored ttl s.cache)
    (fun s a t h hstep => stored_step h hstep) (fun s a t h hs hstep => noStaler_step_iff h hs hstep)
    (fun s a _ _ h => ?_) nofun fun _ _ _ _ => nofun
  cases a with
  | arrive i key =>
    intro hidle
    simp only [step, hidle, ne_eq, not_true_eq_false, if_false] at h
    split at h <;> exact nomatch h
  | lookup key =>
    rintro ⟨flight, hflight, hready⟩
    simp only [step, hflight, hready, Bool.false_eq_true, if_false] at h
    split at h <;> exact nomatch h
  | _ => trivial

/-- A payload is sent 119 seconds after it was built, and may be served for 120 seconds more. -/
theorem stale_hit_too_old :
    ¬ Always (step fun _ : Unit => 60 * second) (NoStaler fun _ => 60 * second) (init Unit Bool 256)
      [.arrive false (), .join (.request false), .lookup (), .finish () (some ⟨false, []⟩),
        .tick 119000000000, .arrive true ()] := by
  intro h
  have hlast := h _ (prefix_refl _) _ rfl true () ⟨⟨false, []⟩, 0⟩ 119000000000 rfl
    ⟨60, 60⟩ rfl 239000000000 (by decide)
  exact nomatch hlast

end NostrMash.PublicCache
