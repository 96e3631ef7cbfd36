import NostrMash.ContactCrawl

/-!
# Where crawled contacts come from

The contacts that one crawl queues are those of one payload: the newest list of the first relay
that returned a list.
-/

namespace NostrMash.ContactCrawl
open Nostr List Option

section
variable {pubkey : String} {events : List Delivery} {best : Best} {d : Delivery}

structure IsNewest (pubkey : String) (events : List Delivery) (i : ℕ) (best : Best) : Prop where
  delivered : ∃ d, events[i]? = some d ∧ d.payload = best.source ∧ listOf pubkey d = some best.parsed
  newest : ∀ (j : ℕ) d parsed, events[j]? = some d → listOf pubkey d = some parsed →
    parsed.createdAt ≤ best.parsed.createdAt
  last : ∀ (j : ℕ) d parsed, events[j]? = some d → listOf pubkey d = some parsed → i < j →
    parsed.createdAt < best.parsed.createdAt

theorem IsNewest.unique {i j : ℕ} {best' : Best} (h : IsNewest pubkey events i best)
    (h' : IsNewest pubkey events j best') : best = best' := by
  obtain ⟨d, hd, hsource, hlist⟩ := h.delivered
  obtain ⟨d', hd', hsource', hlist'⟩ := h'.delivered
  have hij : i = j := by
    rcases lt_trichotomy i j with hlt | heq | hgt
    · exact absurd (h.last j d' _ hd' hlist' hlt) (not_lt.mpr (h'.newest i d _ hd hlist))
    · exact heq
    · exact absurd (h'.last i d _ hd hlist hgt) (not_lt.mpr (h.newest j d' _ hd' hlist'))
  subst hij
  obtain rfl : d = d' := some.inj (hd.symm.trans hd')
  cases best
  cases best'
  simp_all

theorem getElem?_concat_cases {x : Delivery} {j : ℕ} (h : (events ++ [d])[j]? = some x) :
    events[j]? = some x ∨ j = events.length ∧ x = d := by
  rw [List.getElem?_append] at h
  split_ifs at h with hj
  · exact .inl h
  · rw [List.getElem?_singleton] at h
    split_ifs at h with hzero
    exact .inr ⟨by omega, (some.inj h).symm⟩

theorem IsNewest.concat {i : ℕ} (h : IsNewest pubkey events i best)
    (hd : ∀ parsed, listOf pubkey d = some parsed → parsed.createdAt < best.parsed.createdAt) :
    IsNewest pubkey (events ++ [d]) i best where
  delivered := by
    obtain ⟨d', hd', hrest⟩ := h.delivered
    exact ⟨d', List.getElem?_append_left (List.getElem?_eq_some_iff.mp hd').1 ▸ hd', hrest⟩
  newest j x parsed hx hlist := by
    rcases getElem?_concat_cases hx with hx | ⟨-, rfl⟩
    · exact h.newest j x parsed hx hlist
    · exact (hd parsed hlist).le
  last j x parsed hx hlist hlt := by
    rcases getElem?_concat_cases hx with hx | ⟨-, rfl⟩
    · exact h.last j x parsed hx hlist hlt
    · exact hd parsed hlist

theorem isNewest_concat {parsed : ParsedCrawlEvent} (hlist : listOf pubkey d = some parsed)
    (hbefore : ∀ x ∈ events, ∀ old, listOf pubkey x = some old → old.createdAt ≤ parsed.createdAt) :
    IsNewest pubkey (events ++ [d]) events.length ⟨d.payload, parsed⟩ where
  delivered := ⟨d, List.getElem?_concat_length, rfl, hlist⟩
  newest j x old hx hold := by
    rcases getElem?_concat_cases hx with hx | ⟨-, rfl⟩
    · exact hbefore x (mem_of_getElem? hx) old hold
    · exact (congrArg _ (some.inj (hold.symm.trans hlist))).le
  last j x old hx _ hlt := by
    rcases getElem?_concat_cases hx with hx | ⟨hj, -⟩
    · exact absurd (List.getElem?_eq_some_iff.mp hx).1 (by omega)
    · exact absurd hj (by omega)

theorem foldl_choose_spec (pubkey : String) (events : List Delivery) :
    match events.foldl (choose pubkey) none with
    | none => ∀ d ∈ events, listOf pubkey d = none
    | some best => ∃ i, IsNewest pubkey events i best := by
  induction events using List.reverseRecOn with
  | nil => simp
  | append_singleton events d ih =>
    rw [foldl_append, foldl_cons, foldl_nil]
    cases hkept : events.foldl (choose pubkey) none with
    | none =>
      rw [hkept] at ih
      cases hlist : listOf pubkey d with
      | none =>
        simp only [choose, hlist]
        intro x hx
        rcases mem_append.mp hx with hx | hx
        · exact ih x hx
        · exact mem_singleton.mp hx ▸ hlist
      | some parsed =>
        simp only [choose, hlist, all_none, if_true]
        refine ⟨_, isNewest_concat hlist fun x hx old hold => ?_⟩
        exact nomatch (hold.symm.trans (ih x hx))
    | some kept =>
      rw [hkept] at ih
      obtain ⟨i, hi⟩ := ih
      cases hlist : listOf pubkey d with
      | none =>
        simp only [choose, hlist]
        exact ⟨i, hi.concat fun parsed h => nomatch (h.symm.trans hlist)⟩
      | some parsed =>
        simp only [choose, hlist, all_some, decide_eq_true_eq]
        split_ifs with hle
        · refine ⟨_, isNewest_concat hlist fun x hx old hold => ?_⟩
          obtain ⟨j, hj⟩ := mem_iff_getElem?.mp hx
          exact (hi.newest j x old hj hold).trans hle
        · refine ⟨i, hi.concat fun other h => ?_⟩
          obtain rfl := some.inj (h.symm.trans hlist)
          exact lt_of_not_ge hle

theorem foldl_choose_eq_some_iff : events.foldl (choose pubkey) none = some best ↔
    ∃ i, IsNewest pubkey events i best := by
  have hspec := foldl_choose_spec pubkey events
  constructor
  · intro h
    rwa [h] at hspec
  · rintro ⟨i, hi⟩
    cases hkept : events.foldl (choose pubkey) none with
    | none =>
      rw [hkept] at hspec
      obtain ⟨d, hd, -, hlist⟩ := hi.delivered
      exact nomatch (hlist.symm.trans (hspec d (mem_of_getElem? hd)))
    | some kept =>
      rw [hkept] at hspec
      obtain ⟨j, hj⟩ := hspec
      rw [hj.unique hi]

theorem foldl_choose_eq_none_iff : events.foldl (choose pubkey) none = none ↔
    ∀ d ∈ events, listOf pubkey d = none := by
  have hspec := foldl_choose_spec pubkey events
  cases hkept : events.foldl (choose pubkey) none with
  | none =>
    rw [hkept] at hspec
    exact iff_of_true rfl hspec
  | some kept =>
    rw [hkept] at hspec
    obtain ⟨i, hi⟩ := hspec
    obtain ⟨d, hd, -, hlist⟩ := hi.delivered
    refine iff_of_false (by simp) fun h => ?_
    exact nomatch (hlist.symm.trans (h d (mem_of_getElem? hd)))

def Page.Handled (page : Page) : Prop := ∀ d ∈ page.events, d.fault = none

theorem readEvents_eq_ok {kept : Option Best} {result : Option Best} :
    readEvents pubkey kept events = .ok result ↔
      (∀ d ∈ events, d.fault = none) ∧ events.foldl (choose pubkey) kept = result := by
  induction events generalizing kept with
  | nil => simp [readEvents, pure, Except.pure]
  | cons d events ih =>
    rw [readEvents, foldlM_cons, foldl_cons, forall_mem_cons]
    cases hfault : d.fault with
    | some err => simp [bind, Except.bind]
    | none =>
      simp only [bind, Except.bind, true_and]
      exact ih

end

variable {relays : List RelayAnswer}

section
variable {pubkey : String} {best : Best}

def RelayAnswer.Passed (pubkey : String) (answer : RelayAnswer) : Prop :=
  answer.cancelled = none ∧ ∀ page, answer.page = .ok page →
    page.Handled ∧ ∀ d ∈ page.events, listOf pubkey d = none

inductive Chosen (pubkey : String) (best : Best) : List RelayAnswer → Prop where
  | here {answer : RelayAnswer} {page : Page} {i : ℕ} (rest : List RelayAnswer)
      (hcancelled : answer.cancelled = none) (hpage : answer.page = .ok page)
      (hhandled : page.Handled) (hnewest : IsNewest pubkey page.events i best) :
      Chosen pubkey best (answer :: rest)
  | later {answer : RelayAnswer} {rest : List RelayAnswer} (hpassed : answer.Passed pubkey)
      (hrest : Chosen pubkey best rest) : Chosen pubkey best (answer :: rest)

theorem chosen_cons_iff {answer : RelayAnswer} {rest : List RelayAnswer} :
    Chosen pubkey best (answer :: rest) ↔ answer.cancelled = none ∧
      ((∃ page, answer.page = .ok page ∧ readEvents pubkey none page.events = .ok (some best)) ∨
        (∀ page, answer.page = .ok page → readEvents pubkey none page.events = .ok none) ∧
          Chosen pubkey best rest) := by
  simp only [readEvents_eq_ok, foldl_choose_eq_some_iff, foldl_choose_eq_none_iff]
  constructor
  · rintro (⟨-, hcancelled, hpage, hhandled, hnewest⟩ | ⟨⟨hcancelled, hpassed⟩, hrest⟩)
    · exact ⟨hcancelled, .inl ⟨_, hpage, hhandled, _, hnewest⟩⟩
    · exact ⟨hcancelled, .inr ⟨hpassed, hrest⟩⟩
  · rintro ⟨hcancelled, ⟨page, hpage, hhandled, i, hnewest⟩ | ⟨hpassed, hrest⟩⟩
    · exact .here rest hcancelled hpage hhandled hnewest
    · exact .later ⟨hcancelled, hpassed⟩ hrest

theorem walkRelays_eq_some_iff {lastErr : Option String} {confirmedMiss : Bool} :
    walkRelays pubkey relays lastErr confirmedMiss = .ok (some best) ↔
      Chosen pubkey best relays := by
  induction relays generalizing lastErr confirmedMiss with
  | nil =>
    refine iff_of_false ?_ (by rintro ⟨⟩)
    cases confirmedMiss <;> simp [walkRelays]
  | cons answer rest ih =>
    rw [chosen_cons_iff, walkRelays]
    cases hcancelled : answer.cancelled with
    | some err => simp
    | none =>
      cases hpage : answer.page with
      | error err => simp [ih]
      | ok page =>
        cases hread : readEvents pubkey none page.events with
        | error err => simp [hread]
        | ok kept =>
          cases kept with
          | none => simp [hread, ih]
          | some kept => simp [hread]

end

section

/-- A contact from a `p` tag of a contact list that its author signed. -/
def SignedContact (crypto : Crypto) (opts : Options) (pubkey : String) (payload : Payload)
    (contact : String) : Prop :=
  ∃ e, (parseAndValidate crypto opts payload).outcome = .ok e ∧ e.kind = 3 ∧ e.pubkey = pubkey ∧
    ∃ tag ∈ e.tags, pTagValue tag = some contact

def OnlySigned (crypto : Crypto) (opts : Options) (pubkey : String) (r : Crawled) : Prop :=
  ∀ contact ∈ r.enqueued, ∃ payload ∈ r.source, SignedContact crypto opts pubkey payload contact

/-- The payload is a contact list signed by its author that names the contacts. -/
def SignedList (crypto : Crypto) (opts : Options) (pubkey : String) (best : Best) : Prop :=
  ∃ e, (parseAndValidate crypto opts best.source).outcome = .ok e ∧ e.kind = 3 ∧
    e.pubkey = pubkey ∧ ∀ contact ∈ best.parsed.contacts, ∃ tag ∈ e.tags, pTagValue tag = some contact

variable {crypto : Crypto} {opts : Options} {pubkey : String} {answers : CrawlAnswers}
  {cfg : CrawlConfig} {entry : CrawlEntry} {queue : Queue}

theorem signedList_iff {best : Best} (h : best.parsed.contacts ≠ []) :
    SignedList crypto opts pubkey best ↔
      ∀ contact ∈ best.parsed.contacts, SignedContact crypto opts pubkey best.source contact := by
  constructor
  · rintro ⟨e, hvalid, hkind, hpubkey, htags⟩ contact hcontact
    exact ⟨e, hvalid, hkind, hpubkey, htags contact hcontact⟩
  · intro hall
    obtain ⟨first, hfirst⟩ := exists_mem_of_ne_nil _ h
    obtain ⟨e, hvalid, hkind, hpubkey, -⟩ := hall first hfirst
    refine ⟨e, hvalid, hkind, hpubkey, fun contact hcontact => ?_⟩
    obtain ⟨e', hvalid', -, -, htag⟩ := hall contact hcontact
    obtain rfl : e = e' := Except.ok.inj (hvalid.symm.trans hvalid')
    exact htag

theorem fetchContactList_eq_some_iff {best : Best} :
    fetchContactList relays pubkey = .ok (some best) ↔
      trimSpace pubkey ≠ "" ∧ Chosen (trimSpace pubkey) best relays := by
  unfold fetchContactList
  split_ifs with hblank hrelays
  · simp [hblank]
  · subst hrelays
    exact iff_of_false (by simp) fun h => nomatch h.2
  · rw [walkRelays_eq_some_iff, and_iff_right hblank]

theorem crawl_of_queued {best : Best}
    (hfetch : fetchContactList answers.relays entry.pubkey = .ok (some best))
    (hhop : entry.hop < cfg.maxHops) (hcontacts : best.parsed.contacts ≠ [])
    (hfault : answers.enqueueFault = none) : crawlOneContactList cfg queue entry answers =
      ⟨best.parsed.contacts, some best.source, enqueueContactListCrawl answers.now queue
        best.parsed.contacts (entry.hop + 1) cfg.maxPending, .fetched true⟩ := by
  simp only [crawlOneContactList, hfetch, if_pos (And.intro hhop hcontacts), hfault]

theorem exists_best_of_enqueued {contact : String}
    (h : contact ∈ (crawlOneContactList cfg queue entry answers).enqueued) :
    ∃ best, fetchContactList answers.relays entry.pubkey = .ok (some best) ∧
      entry.hop < cfg.maxHops ∧ best.parsed.contacts ≠ [] ∧ answers.enqueueFault = none := by
  unfold crawlOneContactList at h
  split at h
  · exact nomatch h
  · exact nomatch h
  · rename_i best hfetch
    split_ifs at h with hqueued
    · split at h
      · exact nomatch h
      · exact ⟨best, hfetch, hqueued.1, hqueued.2, ‹_›⟩
    · exact nomatch h

/-- The crawl queues contacts of signed lists only, exactly if the list it takes is signed. -/
theorem onlySigned_iff_chosen_signed (crypto : Crypto) (opts : Options) (cfg : CrawlConfig)
    (queue : Queue) (entry : CrawlEntry) (answers : CrawlAnswers) :
    OnlySigned crypto opts (trimSpace entry.pubkey) (crawlOneContactList cfg queue entry answers) ↔
      ∀ best, Chosen (trimSpace entry.pubkey) best answers.relays → trimSpace entry.pubkey ≠ "" →
        entry.hop < cfg.maxHops → answers.enqueueFault = none → best.parsed.contacts ≠ [] →
        SignedList crypto opts (trimSpace entry.pubkey) best := by
  constructor
  · intro honly best hchosen hne hhop hfault hcontacts
    have hfetch := fetchContactList_eq_some_iff.mpr ⟨hne, hchosen⟩
    refine (signedList_iff hcontacts).mpr fun contact hcontact => ?_
    rw [crawl_of_queued hfetch hhop hcontacts hfault] at honly
    obtain ⟨payload, hsource, hsigned⟩ := honly contact hcontact
    exact some.inj hsource ▸ hsigned
  · intro hsigned contact hcontact
    obtain ⟨best, hfetch, hhop, hcontacts, hfault⟩ := exists_best_of_enqueued hcontact
    obtain ⟨hne, hchosen⟩ := fetchContactList_eq_some_iff.mp hfetch
    rw [crawl_of_queued hfetch hhop hcontacts hfault] at hcontact ⊢
    refine ⟨best.source, rfl, ?_⟩
    exact (signedList_iff hcontacts).mp (hsigned best hchosen hne hhop hfault hcontacts) contact
      hcontact

end

def unsignedList (contact : String) : Payload where
  size := 100
  json := some (.obj [("kind", .int 3), ("tags", .arr [.arr [.str "p", .str contact]])])
  trimmed := some (.obj [("kind", .int 3), ("tags", .arr [.arr [.str "p", .str contact]])])
  trimmed_of_json _ h := h

def hexKey (c : Char) : String := String.ofList (List.replicate 64 c)

def forgedAnswers : CrawlAnswers where
  relays := [⟨none, .ok ⟨[⟨unsignedList (hexKey 'b'), none⟩], true⟩⟩]
  enqueueFault := none
  now := 0

/-- One relay answers with an unsigned list. -/
theorem unsigned_contact_queued : ¬ ∀ (crypto : Crypto) (opts : Options) (cfg : CrawlConfig)
    (queue : Queue) (entry : CrawlEntry) (answers : CrawlAnswers),
    OnlySigned crypto opts (trimSpace entry.pubkey)
      (crawlOneContactList cfg queue entry answers) := by
  intro h
  obtain ⟨payload, hsource, e, hvalid, -⟩ :=
    h ⟨fun _ => "", fun _ => true, fun _ => true, fun _ _ _ => true⟩ ⟨0, 0⟩ ⟨2, 100⟩ .empty
      ⟨hexKey 'a', 0⟩ forgedAnswers (hexKey 'b') (by decide)
  obtain rfl : unsignedList (hexKey 'b') = payload := some.inj hsource
  exact nomatch hvalid

end NostrMash.ContactCrawl
