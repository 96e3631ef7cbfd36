import Mathlib
import NostrMash.BackfillRunner

/-!
# When the backfill loop makes progress

A turn of the loop that does not return should count one more empty page or raise the cursor to a
second after which there is another one.
-/

namespace NostrMash.Backfill
open Option

def Progress (s s' : Loop) : Prop :=
  s'.emptyPages = s.emptyPages + 1 ∨
    ∃ c, s'.cursor = some c ∧ (∀ old ∈ s.cursor, old < c) ∧ c + 1 ≤ maxInt64

def MakesProgress (cfg : Config) (relayURL : String) (a : Turn) (s : Loop) : Prop :=
  (turn cfg relayURL a s).2.isSome ∨ Progress s (turn cfg relayURL a s).1

def ReachesUntil (cfg : Config) (page : Page) (s : Loop) : Prop :=
  ∃ u ∈ cfg.untilTime,
    (∃ c ∈ s.cursor, u ≤ c) ∨ ∃ p ∈ page.events, ∃ c ∈ p.extractCreatedAt, u ≤ c

def Ends (cfg : Config) (a : Turn) (s : Loop) : Prop :=
  cfg.windowPassed s.cursor = true ∨ (∃ err, a.fetched = .error err) ∨
    ∃ page, a.fetched = .ok page ∧ ((∃ fault ∈ a.messageFault, fault.1 < page.events.length) ∨
      a.runningFault ≠ none ∨ ReachesUntil cfg page s)

/-- The page is empty, or it holds an event behind the cursor and none of the last second. -/
def Moves (page : Page) (s : Loop) : Prop :=
  page.events = [] ∨
    (∃ p ∈ page.events, ∃ c ∈ p.extractCreatedAt, ∀ old ∈ s.cursor, old < c) ∧
      ∀ p ∈ page.events, p.extractCreatedAt ≠ some maxInt64

def Advances (cfg : Config) (a : Turn) (s : Loop) : Prop :=
  Ends cfg a s ∨ ∃ page, a.fetched = .ok page ∧ Moves page s

section
variable {cfg : Config} {relayURL : String} {a : Turn} {page : Page} {s s' : Loop}

theorem markCompleted_ne (s s' : Loop) : markCompleted relayURL a s ≠ (s', none) := by
  unfold markCompleted
  cases a.lastFault with
  | none => exact fun h => some_ne_none _ (Prod.mk.inj h).2
  | some err => exact fun h => some_ne_none _ (Prod.mk.inj h).2

theorem untilReached_iff {cursor : Option ℤ} :
    cfg.untilReached cursor = true ↔ ∃ u ∈ cfg.untilTime, ∃ c ∈ cursor, u ≤ c := by
  cases hu : cfg.untilTime <;> cases cursor <;> simp [Config.untilReached, hu]

theorem reachesUntil_iff : ReachesUntil cfg page s ↔
    cfg.untilReached (advance s.cursor (newest page.events)) = true := by
  rw [untilReached_iff]
  refine exists_congr fun u => and_congr_right fun _ => ?_
  rw [← not_iff_not]
  push Not
  have hle : ∀ c : ℤ, c < u ↔ c ≤ u - 1 := fun c => by omega
  simp only [hle]
  rw [forall_advance_le, forall_newest_le]

theorem finishPage_again (h : finishPage cfg relayURL a page s = (s', none)) :
    a.runningFault = none ∧ cfg.untilReached (advance s.cursor (newest page.events)) = false ∧
      s'.cursor = advance s.cursor (newest page.events) ∧
      (page.events = [] ∧ s'.emptyPages = s.emptyPages + 1 ∧ s.emptyPages + 1 < cfg.emptyPageMax ∨
        page.events ≠ [] ∧ s'.emptyPages = 0) := by
  simp only [finishPage] at h
  cases hrun : a.runningFault with
  | some err => simp [hrun] at h
  | none =>
    simp only [hrun] at h
    cases huntil : cfg.untilReached (advance s.cursor (newest page.events)) with
    | true =>
      rw [huntil, if_pos rfl] at h
      exact absurd h (markCompleted_ne _ _)
    | false =>
      rw [huntil, if_neg Bool.false_ne_true] at h
      cases hempty : page.events.isEmpty with
      | false =>
        have hne : page.events ≠ [] := List.isEmpty_eq_false_iff.mp hempty
        refine ⟨rfl, rfl, ?_⟩
        cases heose : page.eoseSeen <;> simp only [hempty, heose] at h <;>
          obtain rfl := (Prod.mk.inj h).1 <;> exact ⟨rfl, .inr ⟨hne, rfl⟩⟩
      | true =>
        cases heose : page.eoseSeen with
        | true =>
          simp only [hempty, heose, if_true] at h
          exact absurd h (markCompleted_ne _ _)
        | false =>
          simp only [hempty, heose, if_true, Bool.false_eq_true, if_false] at h
          split_ifs at h with hmax
          · exact absurd h (markCompleted_ne _ _)
          · obtain rfl := (Prod.mk.inj h).1
            exact ⟨rfl, rfl, rfl, .inl ⟨List.isEmpty_iff.mp hempty, rfl, not_le.mp hmax⟩⟩

theorem turn_again (h : turn cfg relayURL a s = (s', none)) :
    ∃ page, a.fetched = .ok page ∧ ¬Ends cfg a s ∧
      s'.cursor = advance s.cursor (newest page.events) ∧
      (page.events = [] ∧ s'.emptyPages = s.emptyPages + 1 ∧ s.emptyPages + 1 < cfg.emptyPageMax ∨
        page.events ≠ [] ∧ s'.emptyPages = 0) := by
  simp only [turn] at h
  split_ifs at h with hpassed
  · exact absurd h (markCompleted_ne _ _)
  · cases hfetch : a.fetched with
    | error err => simp [hfetch] at h
    | ok page =>
      simp only [hfetch] at h
      cases hfault : a.messageFault.filter fun fault => fault.1 < page.events.length with
      | some fault => simp [hfault] at h
      | none =>
        simp only [hfault] at h
        obtain ⟨hrun, huntil, hcursor, hpages⟩ := finishPage_again h
        refine ⟨page, rfl, ?_, hcursor, hpages⟩
        rintro (hp | ⟨err, he⟩ | ⟨page', hok, ⟨fault, hmem, hlt⟩ | hr | hu⟩)
        · exact hpassed hp
        · cases hfetch.symm.trans he
        · obtain rfl := Except.ok.inj (hfetch.symm.trans hok)
          exact (filter_eq_none_iff.mp hfault) fault hmem (decide_eq_true hlt)
        · exact hr hrun
        · obtain rfl := Except.ok.inj (hfetch.symm.trans hok)
          rw [reachesUntil_iff] at hu
          exact Bool.false_ne_true (huntil.symm.trans hu)

theorem ends_or_empty_of_turn {result : Except String Unit}
    (h : turn cfg relayURL a s = (s', some result)) :
    Ends cfg a s ∨ ∃ page, a.fetched = .ok page ∧ page.events = [] := by
  by_contra hnot
  rw [not_or, not_exists] at hnot
  obtain ⟨hends, hempty⟩ := hnot
  cases hfetch : a.fetched with
  | error err => exact hends (.inr (.inl ⟨err, hfetch⟩))
  | ok page =>
    have hpassed : ¬cfg.windowPassed s.cursor = true := fun hp => hends (.inl hp)
    have hrest : ¬((∃ fault ∈ a.messageFault, fault.1 < page.events.length) ∨
        a.runningFault ≠ none ∨ ReachesUntil cfg page s) := fun hr =>
      hends (.inr (.inr ⟨page, hfetch, hr⟩))
    rw [not_or, not_or, not_not] at hrest
    have hfault : a.messageFault.filter (fun fault => fault.1 < page.events.length) = none :=
      filter_eq_none_iff.mpr fun fault hmem hlt =>
        hrest.1 ⟨fault, hmem, of_decide_eq_true hlt⟩
    have huntil : cfg.untilReached (advance s.cursor (newest page.events)) = false :=
      Bool.eq_false_iff.mpr fun hu => hrest.2.2 (reachesUntil_iff.mpr hu)
    have hne : page.events.isEmpty = false :=
      List.isEmpty_eq_false_iff.mpr fun hnil => hempty page ⟨hfetch, hnil⟩
    simp only [turn, if_neg hpassed, hfetch, hfault, finishPage, hrest.2.1, huntil, hne] at h
    cases heose : page.eoseSeen <;> simp [heose] at h

theorem cursor_moves_iff (hne : page.events ≠ []) :
    (∃ c, advance s.cursor (newest page.events) = some c ∧ (∀ old ∈ s.cursor, old < c) ∧
      c + 1 ≤ maxInt64) ↔ Moves page s := by
  rw [Moves, or_iff_right hne]
  constructor
  · rintro ⟨c, hc, hlater, hroom⟩
    have hle : ∀ d ∈ advance s.cursor (newest page.events), d ≤ c := fun d hd => by
      rw [hc] at hd
      exact (some.inj hd).symm.le
    rw [forall_advance_le, forall_newest_le] at hle
    constructor
    · rcases mem_advance hc with h | h
      · exact absurd (hlater c h) (lt_irrefl c)
      · obtain ⟨p, hp, hcp⟩ := exists_of_mem_newest h
        exact ⟨p, hp, c, hcp, hlater⟩
    · intro p hp hmax
      have := hle.2 p hp _ hmax
      omega
  · rintro ⟨⟨p, hp, c₀, hc₀, hlater⟩, hmax⟩
    have hnot : ¬∀ d ∈ advance s.cursor (newest page.events), d ≤ c₀ - 1 := by
      rw [forall_advance_le, forall_newest_le]
      intro h
      have := h.2 p hp c₀ hc₀
      omega
    push Not at hnot
    obtain ⟨c, hc, hge⟩ := hnot
    refine ⟨c, hc, fun old hold => by have := hlater old hold; omega, ?_⟩
    rcases mem_advance hc with h | h
    · have := hlater c h
      omega
    · obtain ⟨q, hq, hcq⟩ := exists_of_mem_newest h
      have hle := (extractCreatedAt_bounds hcq).2
      have hne' : c ≠ maxInt64 := fun heq => hmax q hq (heq ▸ hcq)
      omega

theorem makesProgress_iff : MakesProgress cfg relayURL a s ↔ Advances cfg a s := by
  unfold MakesProgress
  cases hturn : turn cfg relayURL a s with
  | mk s' result =>
    cases result with
    | none =>
      obtain ⟨page, hfetch, hends, hcursor, hpages⟩ := turn_again hturn
      have hadv : Advances cfg a s ↔ Moves page s := by
        rw [Advances, or_iff_right hends]
        exact ⟨fun ⟨page', hok, hm⟩ => Except.ok.inj (hfetch.symm.trans hok) ▸ hm,
          fun hm => ⟨page, hfetch, hm⟩⟩
      rw [hadv]
      simp only [isSome_none, Bool.false_eq_true, false_or, Progress, hcursor]
      rcases hpages with ⟨hempty, hcount, -⟩ | ⟨hne, hzero⟩
      · exact iff_of_true (.inl hcount) (.inl hempty)
      · rw [hzero, or_iff_right (by omega), cursor_moves_iff hne]
    | some result =>
      refine iff_of_true (.inl rfl) ?_
      rcases ends_or_empty_of_turn hturn with h | ⟨page, hfetch, hempty⟩
      · exact .inl h
      · exact .inr ⟨page, hfetch, .inl hempty⟩

end

section
variable {cfg : Config} {relayURL : String} {turns : ℕ → Turn} {created : Finset ℤ}

def ahead (created : Finset ℤ) (s : Loop) : ℕ :=
  (created.filter fun c => ∀ old ∈ s.cursor, old < c).card

def remaining (cfg : Config) (created : Finset ℤ) (s : Loop) : ℕ :=
  ahead created s * (cfg.emptyPageMax + 1) + (cfg.emptyPageMax - s.emptyPages)

theorem ahead_lt {s s' : Loop} {c : ℤ} (hc : c ∈ created) (hcursor : s'.cursor = some c)
    (hlater : ∀ old ∈ s.cursor, old < c) : ahead created s' < ahead created s := by
  refine Finset.card_lt_card ⟨fun d hd => ?_, fun hsub => ?_⟩
  · rw [Finset.mem_filter] at hd ⊢
    refine ⟨hd.1, fun old hold => (hlater old hold).trans (hd.2 c hcursor)⟩
  · have hmem := hsub (Finset.mem_filter.mpr ⟨hc, hlater⟩)
    exact lt_irrefl c ((Finset.mem_filter.mp hmem).2 c hcursor)

theorem remaining_lt {a : Turn} {s s' : Loop} (hserved : ∀ page, a.fetched = .ok page →
      ∀ p ∈ page.events, ∀ c ∈ p.extractCreatedAt, c ∈ created)
    (hmoves : Advances cfg a s) (h : turn cfg relayURL a s = (s', none)) :
    remaining cfg created s' < remaining cfg created s := by
  obtain ⟨page, hfetch, hends, hcursor, hpages⟩ := turn_again h
  rcases hpages with ⟨hempty, hcount, hmax⟩ | ⟨hne, hzero⟩
  · have hsame : s'.cursor = s.cursor := by
      rw [hcursor, hempty]
      rfl
    simp only [remaining, ahead, hsame, hcount]
    omega
  · obtain ⟨page', hok, hm⟩ := hmoves.resolve_left hends
    obtain rfl := Except.ok.inj (hfetch.symm.trans hok)
    obtain ⟨c, hc, hlater, -⟩ := (cursor_moves_iff hne).mpr hm
    have hmem : c ∈ created := by
      rcases mem_advance hc with hold | hnew
      · exact absurd (hlater c hold) (lt_irrefl c)
      · obtain ⟨p, hp, hcp⟩ := exists_of_mem_newest hnew
        exact hserved page hfetch p hp c hcp
    have hlt : ahead created s' + 1 ≤ ahead created s :=
      ahead_lt hmem (hcursor.trans hc) hlater
    have hmul := Nat.mul_le_mul_right (cfg.emptyPageMax + 1) hlt
    rw [Nat.add_mul, Nat.one_mul] at hmul
    simp only [remaining]
    omega

theorem loop_returns (hserved : ∀ i page, (turns i).fetched = .ok page →
      ∀ p ∈ page.events, ∀ c ∈ p.extractCreatedAt, c ∈ created) (m : ℕ) :
    ∀ i s, remaining cfg created s < m →
      (∀ n s', loop cfg relayURL turns n i s = (s', none) → Advances cfg (turns (i + n)) s') →
      ∃ n, (loop cfg relayURL turns n i s).2.isSome := by
  induction m with
  | zero => exact fun i s hlt => absurd hlt (Nat.not_lt_zero _)
  | succ m ih =>
    intro i s hlt hmoves
    cases hturn : turn cfg relayURL (turns i) s with
    | mk s' result =>
      cases result with
      | some result => exact ⟨1, by simp [loop, hturn]⟩
      | none =>
        have hless := remaining_lt (hserved i) (hmoves 0 s rfl) hturn
        have hloop : ∀ n, loop cfg relayURL turns (n + 1) i s =
            loop cfg relayURL turns n (i + 1) s' := fun n => by rw [loop, hturn]
        obtain ⟨n, hn⟩ := ih (i + 1) s' (by omega) fun n u hu => by
          have := hmoves (n + 1) u ((hloop n).trans hu)
          rwa [Nat.add_comm n 1, ← Nat.add_assoc] at this
        exact ⟨n + 1, (hloop n).symm ▸ hn⟩

end

/-- A turn makes progress exactly when its answers end the loop, its page is empty, or the page
holds an event behind the cursor and none of the last second. -/
theorem progress_iff_advances (cfg : Config) (relayURL : String) :
    (∀ a s, MakesProgress cfg relayURL a s ↔ Advances cfg a s) ∧
      ∀ (turns : ℕ → Turn) (served : Set Payload) (s : Loop), served.Finite →
        (∀ i page, (turns i).fetched = .ok page → ∀ p ∈ page.events, p ∈ served) →
        (∀ n s', loop cfg relayURL turns n 0 s = (s', none) → Advances cfg (turns n) s') →
        ∃ n, (loop cfg relayURL turns n 0 s).2.isSome := by
  refine ⟨fun a s => makesProgress_iff, fun turns served s hfin hserved hmoves => ?_⟩
  have hcreated : { c | ∃ p ∈ served, p.extractCreatedAt = some c }.Finite := by
    refine (hfin.image fun p => p.extractCreatedAt.getD 0).subset ?_
    rintro c ⟨p, hp, hc⟩
    exact ⟨p, hp, by simp [hc]⟩
  refine @loop_returns cfg relayURL turns hcreated.toFinset ?_ _ 0 s (Nat.lt_succ_self _) ?_
  · intro i page hfetch p hp c hc
    exact hcreated.mem_toFinset.mpr ⟨p, hserved i page hfetch p hp, hc⟩
  · intro n s' hn
    rw [Nat.zero_add]
    exact hmoves n s' hn

def openConfig : Config where
  kinds := [1]
  since := none
  untilTime := none
  pageLimit := 500
  emptyPageMax := 2
  kinds_ne_nil := notes_ne_nil
  pageLimit_pos := by decide
  emptyPageMax_pos := Nat.two_pos
  since_le_until := by simp

def repeatedPage : Turn where
  now := 0
  fetched := .ok ⟨[⟨some (.obj [("created_at", .int 5)])⟩], true⟩
  messageFault := none
  runningFault := none
  lastFault := none

def atFive : CheckpointRow :=
  { since := none, untilTime := none, cursor := some "5", eoseSeenAt := none, status := .running,
    updatedAt := 0 }

theorem turn_repeatedPage {s : Loop} (hs : s.cursor = some 5) :
    ∃ s', turn openConfig "wss://r" repeatedPage s = (s', none) ∧ s'.cursor = some 5 ∧
      s'.emptyPages = 0 := by
  have hnewest : newest [⟨some (.obj [("created_at", .int 5)])⟩] = some 5 := by decide
  simp [turn, repeatedPage, finishPage, hs, hnewest, openConfig, Config.windowPassed,
    Config.untilReached, advance]

/-- The loop stays where it is, turn after turn. -/
theorem repeatedPage_stuck : ¬MakesProgress openConfig "wss://r" repeatedPage (Loop.start atFive) ∧
      ∀ n, (loop openConfig "wss://r" (fun _ => repeatedPage) n 0 (Loop.start atFive)).2 =
        none := by
  have hstart : (Loop.start atFive).cursor = some 5 := by decide
  constructor
  · obtain ⟨s', hturn, hcursor, hzero⟩ := turn_repeatedPage hstart
    rintro (hreturn | hcount | ⟨c, hc, hlater, -⟩)
    · rw [hturn] at hreturn
      cases hreturn
    · rw [hturn, hzero] at hcount
      cases hcount
    · rw [hturn, hcursor] at hc
      exact absurd (hlater 5 hstart) (some.inj hc ▸ lt_irrefl (5 : ℤ))
  · have hall : ∀ n i s, s.cursor = some 5 →
        (loop openConfig "wss://r" (fun _ => repeatedPage) n i s).2 = none := by
      intro n
      induction n with
      | zero => exact fun i s _ => rfl
      | succ n ih =>
        intro i s hs
        obtain ⟨s', hturn, hcursor, -⟩ := turn_repeatedPage hs
        rw [loop, hturn]
        exact ih (i + 1) s' hcursor
    exact fun n => hall n 0 _ hstart

end NostrMash.Backfill
