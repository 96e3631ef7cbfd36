import NostrMash.FrontierSteps

/-!
# Recovery of frontier rows

After a crash the marks of a fetch never come. A row can be claimed again by refreshes and time
alone exactly if it is not in cooldown: no statement but a mark looks at the rows in cooldown.
-/

namespace NostrMash.Frontier
open KeyedTable List

inductive Move where
  | advance (duration : ℕ)
  | refresh

def play (params : RefreshParams) (sources : ℕ → Sources) :
    List Move → ℕ → ℤ → FrontierTable → ℤ × FrontierTable
  | [], _, now, T => (now, T)
  | .advance duration :: moves, k, now, T => play params sources moves k (now + duration) T
  | .refresh :: moves, k, now, T =>
    play params sources moves (k + 1) now (params.refreshed (sources k) now T)

def Returned (T : FrontierTable) (pubkey : String) (now : ℤ) : Prop :=
  ∃ least : ℤ, ∀ limit cooldown, least ≤ limit → ∃ entries,
    (claimTrustPubkeyFrontierForFetch T none limit cooldown (fun _ => false) now).1 = .ok entries ∧
      pubkey ∈ entries.map (·.pubkey)

def Recoverable (params : RefreshParams) (sources : ℕ → Sources) (now : ℤ) (T : FrontierTable)
    (pubkey : String) : Prop :=
  ∃ moves, Returned (play params sources moves 0 now T).2 pubkey
    (play params sources moves 0 now T).1

def AlwaysListed (params : RefreshParams) (sources : ℕ → Sources) (pubkey : String) : Prop :=
  ∀ k, pubkey ∈ seenPubkeys (params.candidates (sources k))

/-- New rows are not stable at once, or the lists name finitely many authors. -/
def FewArrivals (params : RefreshParams) (sources : ℕ → Sources) : Prop :=
  0 < params.minStableWindow ∨
    ∃ names : Finset String, ∀ k, ∀ pubkey ∈ seenPubkeys (params.candidates (sources k)),
      pubkey ∈ names

section
variable {T : FrontierTable} {pubkey : String} {now : ℤ} {r : FrontierRow}

theorem returned_of_active (hr : T.get pubkey = some r) (hactive : r.state = .active)
    (hdue : r.nextEligibleAt ≤ now) : Returned T pubkey now := by
  refine ⟨max 1 T.rows.length, fun limit cooldown hlimit => ⟨_, rfl, ?_⟩⟩
  have hlength : T.rows.length ≤ limit.toNat := by omega
  rw [if_neg (by omega), map_map]
  refine mem_map.mpr ⟨(pubkey, r), mem_oldest_of_length_le ?_ ?_, rfl⟩
  · exact mem_filter.mpr
      ⟨mem_rows.mpr hr, decide_eq_true ⟨hactive, hdue, Bool.false_ne_true⟩⟩
  · exact (length_filter_le _ _).trans hlength

theorem not_returned_of_cooldown (hr : T.get pubkey = some r) (hcooldown : r.state = .cooldown) :
    ¬ Returned T pubkey now := by
  rintro ⟨least, h⟩
  obtain ⟨entries, hentries, hmem⟩ := h least 0 le_rfl
  cases hentries
  rw [map_map] at hmem
  obtain ⟨⟨key, r'⟩, hrow, rfl⟩ := mem_map.mp hmem
  obtain ⟨hrow, hcond⟩ := mem_filter.mp (mem_of_mem_oldest hrow)
  obtain rfl : r = r' := Option.some.inj (hr.symm.trans (mem_rows.mp hrow))
  exact nomatch hcooldown.symm.trans (of_decide_eq_true hcond).1

end

section
variable {params : RefreshParams} {sources : ℕ → Sources} {now : ℤ} {T : FrontierTable}
  {pubkey : String} {r : FrontierRow} {names : Finset String}

theorem cooldown_play (moves : List Move) (k : ℕ) (hr : T.get pubkey = some r)
    (hcooldown : r.state = .cooldown) :
    ∃ r', (play params sources moves k now T).2.get pubkey = some r' ∧ r'.state = .cooldown := by
  induction moves generalizing k now T r with
  | nil => exact ⟨r, hr, hcooldown⟩
  | cons move moves ih =>
    cases move with
    | advance duration => exact ih k hr hcooldown
    | refresh =>
      obtain ⟨r₁, h₁, -, hstate⟩ :=
        get_refreshed params (sources k) now hr
      refine ih (k + 1) h₁ ?_
      rcases hstate with ⟨hsame, -⟩ | ⟨hfailed, -⟩ | ⟨hwas, -⟩
      · exact hsame.trans hcooldown
      · exact nomatch hcooldown.symm.trans hfailed
      · rcases hwas with hwas | hwas <;> exact nomatch hcooldown.symm.trans hwas

theorem not_recoverable_of_cooldown (hr : T.get pubkey = some r)
    (hcooldown : r.state = .cooldown) : ¬ Recoverable params sources now T pubkey := by
  rintro ⟨moves, hreturned⟩
  obtain ⟨r', hr', hcooldown'⟩ := cooldown_play moves 0 hr hcooldown
  exact not_returned_of_cooldown hr' hcooldown' hreturned

def Bounded (params : RefreshParams) (sources : ℕ → Sources) (now : ℤ) (names : Finset String)
    (T : FrontierTable) : Prop :=
  ∀ k, ∀ pubkey ∈ seenPubkeys (params.candidates (sources k)), ∀ r, T.get pubkey = some r →
    r.firstSeenAt ≤ now - params.stable → pubkey ∈ names

theorem bounded_refreshed (hnames : 0 < params.minStableWindow ∨
      ∀ k, ∀ pubkey ∈ seenPubkeys (params.candidates (sources k)), pubkey ∈ names)
    (h : Bounded params sources now names T) (k : ℕ) :
    Bounded params sources now names (params.refreshed (sources k) now T) := by
  intro k' pubkey hseen r hr hstable
  rcases get_refreshed_new hr with hnew | ⟨r₀, h₀⟩
  · rcases hnames with hwindow | hnames
    · have hlate : params.minStableWindow ≤ params.stable := le_max_left _ _
      omega
    · exact hnames k' pubkey hseen
  · obtain ⟨r', hr', hfirst, -⟩ :=
      get_refreshed params (sources k) now h₀
    obtain rfl : r' = r := Option.some.inj (hr'.symm.trans hr)
    exact h k' pubkey hseen r₀ h₀ (hfirst ▸ hstable)

open Classical in
noncomputable def ahead (names : Finset String) (T : FrontierTable) : ℕ :=
  (names.filter fun pubkey => ¬ Active T pubkey).card

theorem ahead_refreshed {other : String} (k : ℕ) (hother : other ∈ names)
    (hnot : ¬ Active T other) (hactive : Active (params.refreshed (sources k) now T) other) :
    ahead names (params.refreshed (sources k) now T) < ahead names T := by
  classical
  refine Finset.card_lt_card ⟨fun name hname => ?_, fun hsub => ?_⟩
  · obtain ⟨hmem, hidle⟩ := Finset.mem_filter.mp hname
    exact Finset.mem_filter.mpr ⟨hmem, fun h => hidle (active_refreshed h)⟩
  · exact (Finset.mem_filter.mp (hsub (Finset.mem_filter.mpr ⟨hother, hnot⟩))).2 hactive

theorem active_play (hlisted : AlwaysListed params sources pubkey)
    (hnames : 0 < params.minStableWindow ∨
      ∀ k, ∀ pubkey ∈ seenPubkeys (params.candidates (sources k)), pubkey ∈ names)
    (n k : ℕ) (hn : ahead names T < n) (hbounded : Bounded params sources now names T)
    (hr : T.get pubkey = some r) (hwaits : r.Waits params.stable now) :
    ∃ m r', (play params sources (List.replicate m .refresh) k now T).2.get pubkey = some r' ∧
      (play params sources (List.replicate m .refresh) k now T).1 = now ∧
      r'.state = .active ∧ r'.nextEligibleAt ≤ now := by
  -- each refresh that passes over the row uses up one of the authors that are ahead of it
  induction n generalizing k T r with
  | zero => exact absurd hn (Nat.not_lt_zero _)
  | succ n ih =>
    obtain ⟨r₁, h₁, ⟨hactive, hdue⟩ | ⟨hwaits₁, other, hnot, hseen, r₀, h₀, hactive, hstable⟩⟩ :=
      refreshed_of_waits hr hwaits (hlisted k)
    · exact ⟨1, r₁, h₁, rfl, hactive, hdue⟩
    · have hbounded₁ := bounded_refreshed hnames hbounded k
      have hless := ahead_refreshed k (hbounded₁ k other hseen r₀ h₀ hstable) hnot
        ⟨r₀, h₀, hactive⟩
      obtain ⟨m, r', hr', hnow, hend⟩ := ih (k + 1) (by omega) hbounded₁ h₁ hwaits₁
      exact ⟨m + 1, r', hr', hnow, hend⟩

theorem recoverable_of_active (hr : T.get pubkey = some r) (hactive : r.state = .active) :
    Recoverable params sources now T pubkey := by
  refine ⟨[.advance (r.nextEligibleAt - now).toNat], returned_of_active hr hactive ?_⟩
  show r.nextEligibleAt ≤ now + (r.nextEligibleAt - now).toNat
  omega

theorem recoverable_of_idle (hlisted : AlwaysListed params sources pubkey)
    (hfew : FewArrivals params sources) (hr : T.get pubkey = some r)
    (hidle : r.state = .candidate ∨ r.state = .failed) :
    Recoverable params sources now T pubkey := by
  obtain ⟨names, hnames, hrows⟩ : ∃ names : Finset String,
      (0 < params.minStableWindow ∨
        ∀ k, ∀ pubkey ∈ seenPubkeys (params.candidates (sources k)), pubkey ∈ names) ∧
      ∀ later, Bounded params sources later names T := by
    rcases hfew with hwindow | ⟨names, hall⟩
    · refine ⟨(T.rows.map Prod.fst).toFinset, .inl hwindow, fun _ _ key _ r₀ h₀ _ => ?_⟩
      exact mem_toFinset.mpr (mem_map.mpr ⟨(key, r₀), mem_rows.mpr h₀, rfl⟩)
    · exact ⟨names, .inr hall, fun _ k key hkey _ _ _ => hall k key hkey⟩
  -- wait until the row is stable and its retry is due
  let pause := (max (r.firstSeenAt + params.stable) r.nextEligibleAt - now).toNat
  have hwaits : r.Waits params.stable (now + pause) := by
    refine ⟨by omega, hidle.imp_right fun hfailed => ⟨hfailed, by omega⟩⟩
  obtain ⟨m, r', hr', hnow, hactive, hdue⟩ := active_play hlisted hnames _ 0
    (Nat.lt_succ_self _) (hrows (now + pause)) hr hwaits
  refine ⟨.advance pause :: List.replicate m .refresh, ?_⟩
  exact returned_of_active hr' hactive (hnow.symm ▸ hdue)

/-- After any calls, a row whose author stays listed can be claimed again without a mark exactly if
it is not in cooldown. -/
theorem recoverable_iff_not_cooldown (calls : List Call) (params : RefreshParams)
    (sources : ℕ → Sources) (now : ℤ) (pubkey : String) (row : FrontierRow)
    (hrow : (execAll calls).get pubkey = some row) (hlisted : AlwaysListed params sources pubkey)
    (hfew : FewArrivals params sources) :
    Recoverable params sources now (execAll calls) pubkey ↔ row.state ≠ .cooldown := by
  constructor
  · intro hrecoverable hcooldown
    exact not_recoverable_of_cooldown hrow hcooldown hrecoverable
  · intro hstate
    cases hs : row.state with
    | candidate => exact recoverable_of_idle hlisted hfew hrow (.inl hs)
    | active => exact recoverable_of_active hrow hs
    | cooldown => exact absurd hs hstate
    | failed => exact recoverable_of_idle hlisted hfew hrow (.inr hs)

end

def minute : ℤ := 60

def settings : RefreshParams := ⟨10, 0, 10⟩

def oneAuthor : Sources := ⟨[⟨"pk1", 9, 1, 1⟩], []⟩

def claimedOnce : List Call :=
  [.refresh none settings oneAuthor 0, .claim none 10 minute (fun _ => false) 0]

theorem seen_oneAuthor : seenPubkeys (settings.candidates oneAuthor) = ["pk1"] := by
  decide

theorem oneAuthor_listed : AlwaysListed settings (fun _ => oneAuthor) "pk1" := by
  intro _
  rw [seen_oneAuthor]
  exact mem_singleton_self _

theorem oneAuthor_few : FewArrivals settings fun _ => oneAuthor := by
  refine .inr ⟨{"pk1"}, fun _ pubkey hpubkey => ?_⟩
  rw [seen_oneAuthor] at hpubkey
  exact Finset.mem_singleton.mpr (mem_singleton.mp hpubkey)

/-- A fetch that has failed is tried again. -/
theorem failedFetch_recoverable : Recoverable settings (fun _ => oneAuthor) minute
      (execAll (claimedOnce ++ [.failure none "pk1" minute 1])) "pk1" :=
  (recoverable_iff_not_cooldown _ settings (fun _ => oneAuthor) minute "pk1"
    ⟨1, 1, 9, .failed, 0, 1 + minute⟩ (by decide) oneAuthor_listed oneAuthor_few).mpr nofun

/-- The author of a fetch that never ends is not fetched again. -/
theorem claimedOnce_stuck : ((execAll claimedOnce).get "pk1").isSome = true ∧
      AlwaysListed settings (fun _ => oneAuthor) "pk1" ∧
      ∀ now, ¬ Recoverable settings (fun _ => oneAuthor) now (execAll claimedOnce) "pk1" := by
  have hrow : (execAll claimedOnce).get "pk1" = some ⟨1, 1, 9, .cooldown, 0, minute⟩ := by
    decide
  exact ⟨hrow ▸ rfl, oneAuthor_listed, fun now => not_recoverable_of_cooldown hrow rfl⟩

end NostrMash.Frontier
