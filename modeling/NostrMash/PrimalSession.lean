import NostrMash.Machine
import NostrMash.Json

/-!
# Subscriptions of a websocket session in the Primal V1 dialect

A `REQ` frame is refused, or it reserves its subscription id and is answered. A request for
notification counts or for counts of direct messages leaves a live stream behind, every other one
gives its id back.
-/

namespace NostrMash.PrimalSession
open Machine List Option

abbrev Kwargs := List (String × Json)

def stringValue (kwargs : Kwargs) (key : String) : String :=
  match Json.field kwargs key with
  | some (.str s) => s
  | _ => ""

def cacheCall : Json → Option (String × Kwargs)
  | .obj fields =>
    match Json.field fields "cache" with
    | some (.arr (first :: rest)) =>
      let name := match first with
        | .str s => s
        | _ => ""
      let kwargs := match rest with
        | .obj kwargs :: _ => kwargs
        | _ => []
      some (toLower (trimSpace name), kwargs)
    | _ => none
  | _ => none

def cacheCallFromFilters (filters : List Json) : String × Kwargs :=
  (filters.findSome? cacheCall).getD ("", [])

def filtersUseKindOrAuthor (filters : List Json) : Bool :=
  filters.any fun
    | .obj fields => (Json.field fields "kinds").isSome || (Json.field fields "authors").isSome
    | _ => false

def isBroadcastRequest (filters : List Json) : Bool :=
  (cacheCallFromFilters filters).1 ∈ ["broadcast_events", "broadcast_reply"]

def isDirectMessagesRequest (filters : List Json) : Bool :=
  filters.any fun filter => (cacheCall filter).any fun call =>
    call.1 ∈ ["get_directmsgs", "directmsg_count", "directmsg_count_2", "reset_directmsg_count",
      "reset_directmsg_counts", "get_directmsg_contacts"]

def dmLiveNames : List String := ["directmsg_count", "directmsg_count_2"]

def validatePubkeyHex (pubkey : String) : Bool :=
  let chars := (trimSpace pubkey).toList
  chars.length = 64 && chars.all fun c => isHexDigit c || ('A' ≤ c && c ≤ 'F')

inductive Stream where
  | dmLive (kind receiver sender : String)
  | notifyLive (pubkey : String) (version : ℕ)
  deriving DecidableEq

def parseDMLiveSubscription (filters : List Json) : Option Stream :=
  (filters.findSome? fun filter => (cacheCall filter).filter (·.1 ∈ dmLiveNames)).bind
    fun (name, kwargs) =>
      let receiver := trimSpace (stringValue kwargs "pubkey")
      let sender := trimSpace (stringValue kwargs "sender")
      if receiver = "" ∨ !validatePubkeyHex receiver then none
      else if sender ≠ "" ∧ !validatePubkeyHex sender then none
      else some (.dmLive name receiver sender)

def hasOnlyDMLiveFilters (filters : List Json) : Bool :=
  !filters.isEmpty && filters.all fun filter => (cacheCall filter).any (·.1 ∈ dmLiveNames)

def notifySubscription (name : String) (kwargs : Kwargs) : Option Stream :=
  let given := trimSpace (stringValue kwargs "pubkey")
  let pubkey := if given = "" then trimSpace (stringValue kwargs "user_pubkey") else given
  if validatePubkeyHex pubkey then
    some (.notifyLive (toLower pubkey) (if name = "notification_counts_2" then 2 else 1))
  else none

section

structure Options where
  maxReqPerMinute : ℕ
  maxBroadcastPerMinute : ℕ
  maxDMReqPerMinute : ℕ
  maxSubscriptions : ℕ

structure Session where
  subscriptions : List String
  dmLive : String → Option Stream
  notify : String → Option Stream
  compression : Bool
  windowStarted : ℤ
  reqInWindow : ℕ
  dmReqInWindow : ℕ
  broadcastInWindow : ℕ

inductive Frame where
  | notice (subID text : String)
  | event (subID : String) (payload : Json)
  | zlibEvents (subID : String) (payloads : List Json)
  | eose (subID : String)

def Frame.isEose : Frame → Bool
  | eose _ => true
  | _ => false

/-- What `handleRequestFilters` returns: notices and events of the subscription. -/
inductive Answer where
  | notice (text : String)
  | event (payload : Json)

variable (opts : Options)

def allowRequest (now : ℤ) (filters : List Json) (s : Session) : Option String × Session :=
  let s := if now - s.windowStarted < 60000000000 then s
    else { s with windowStarted := now, reqInWindow := 0, dmReqInWindow := 0,
                  broadcastInWindow := 0 }
  let s := { s with reqInWindow := s.reqInWindow + 1 }
  if opts.maxReqPerMinute < s.reqInWindow then (some "rate limit exceeded", s)
  else
    let s := if isBroadcastRequest filters then
      { s with broadcastInWindow := s.broadcastInWindow + 1 } else s
    if isBroadcastRequest filters ∧ opts.maxBroadcastPerMinute < s.broadcastInWindow then
      (some "rate limit exceeded", s)
    else
      let s := if isDirectMessagesRequest filters then
        { s with dmReqInWindow := s.dmReqInWindow + 1 } else s
      if isDirectMessagesRequest filters ∧ opts.maxDMReqPerMinute < s.dmReqInWindow then
        (some "dm rate limit exceeded", s)
      else (none, s)

def reserveSubscription (subID : String) (s : Session) : Option String × Session :=
  if opts.maxSubscriptions ≤ s.subscriptions.length then (some "too many subscriptions", s)
  else (none, { s with subscriptions := s.subscriptions.insert subID })

def Session.addStream (s : Session) (subID : String) : Stream → Session
  | .dmLive kind receiver sender =>
    { s with dmLive := Function.update s.dmLive subID (some (.dmLive kind receiver sender)) }
  | .notifyLive pubkey version =>
    { s with notify := Function.update s.notify subID (some (.notifyLive pubkey version)) }

def Session.dropSubscription (s : Session) (subID : String) : Session :=
  { s with
    subscriptions := s.subscriptions.filter (· ≠ subID)
    dmLive := Function.update s.dmLive subID none
    notify := Function.update s.notify subID none }

def sendResponseFrames (s : Session) (subID : String) (answer : List Answer) : List Frame :=
  let sent := answer.filterMap fun
    | .notice text => some (.notice subID text)
    | .event payload => if s.compression then none else some (.event subID payload)
  let events := answer.filterMap fun
    | .notice _ => none
    | .event payload => some payload
  sent ++ (if s.compression ∧ events ≠ [] then [.zlibEvents subID events] else []) ++ [.eose subID]

/-- The part of `handleREQFrame` behind the reservation. -/
def serve (subID : String) (filters : List Json) (answer : Option (List Answer)) (s : Session) :
    Option (List Frame × Session) :=
  let (name, kwargs) := cacheCallFromFilters filters
  if filtersUseKindOrAuthor filters then none
  else if name = "set_primal_protocol" then
    let zlib := (trimSpace (stringValue kwargs "compression")).toList.map Char.toLower =
      "zlib".toList
    some ([.eose subID], { s with compression := s.compression || zlib }.dropSubscription subID)
  else if name = "notification_counts" ∨ name = "notification_counts_2" then
    match notifySubscription name kwargs with
    | none => some ([.notice subID "error", .eose subID], s.dropSubscription subID)
    | some stream => some ([.eose subID], s.addStream subID stream)
  else
    match parseDMLiveSubscription filters with
    | some stream =>
      if hasOnlyDMLiveFilters filters then some ([.eose subID], s.addStream subID stream)
      else answer.map fun answer => (sendResponseFrames s subID answer, s.addStream subID stream)
    | none => answer.map fun answer => (sendResponseFrames s subID answer, s.dropSubscription subID)

def refuse (now : ℤ) (subID : String) (filters : List Json) (s : Session) :
    Option String × Session :=
  if filters.isEmpty then (some "missing filter", s)
  else
    match allowRequest opts now filters s with
    | (some text, s) => (some text, s)
    | (none, s) => reserveSubscription opts subID s

def handleREQFrame (now : ℤ) (subID : String) (filters : List Json) (answer : Option (List Answer))
    (s : Session) : Option (List Frame × Session) :=
  match refuse opts now subID filters s with
  | (some text, s) => some ([.notice subID text, .eose subID], s)
  | (none, s) => serve subID filters answer s

end

section
variable {opts : Options} {now : ℤ} {subID : String} {filters : List Json} {s s' : Session}
  {answer : Option (List Answer)} {frames : List Frame}

def requested (filters : List Json) : Option Stream :=
  let (name, kwargs) := cacheCallFromFilters filters
  if name = "set_primal_protocol" then none
  else if name = "notification_counts" ∨ name = "notification_counts_2" then
    notifySubscription name kwargs
  else parseDMLiveSubscription filters

def Session.settle (s : Session) (subID : String) : Option Stream → Session
  | none => s.dropSubscription subID
  | some stream => s.addStream subID stream

def Session.SameLive (s s' : Session) : Prop :=
  s'.subscriptions = s.subscriptions ∧ s'.dmLive = s.dmLive ∧ s'.notify = s.notify

theorem isEose_sendResponseFrames (s : Session) (subID : String) (answer : List Answer) :
    (sendResponseFrames s subID answer).filter Frame.isEose = [.eose subID] := by
  have hsent : (answer.filterMap fun
      | .notice text => some (Frame.notice subID text)
      | .event payload => if s.compression then none else some (.event subID payload)).filter
        Frame.isEose = [] := by
    refine filter_eq_nil_iff.mpr fun frame hframe => ?_
    obtain ⟨a, -, ha⟩ := mem_filterMap.mp hframe
    cases a with
    | notice text =>
      cases ha
      exact Bool.false_ne_true
    | event payload =>
      simp only [ite_none_left_eq_some, Option.some.injEq] at ha
      obtain ⟨-, rfl⟩ := ha
      exact Bool.false_ne_true
  simp only [sendResponseFrames, filter_append]
  rw [hsent]
  split_ifs <;> rfl

theorem serve_spec (h : serve subID filters answer s = some (frames, s')) :
    frames.filter Frame.isEose = [.eose subID] ∧
      (s.settle subID (requested filters)).SameLive s' := by
  have hdone : ∀ {u : Session} {sent : List Frame}, sent.filter Frame.isEose = [.eose subID] →
      some (sent, u) = some (frames, s') →
        frames.filter Frame.isEose = [.eose subID] ∧ u.SameLive s' := by
    rintro u sent hsent ⟨⟩
    exact ⟨hsent, rfl, rfl, rfl⟩
  have hanswer : ∀ {u : Session},
      (answer.map fun answer => (sendResponseFrames s subID answer, u)) = some (frames, s') →
        frames.filter Frame.isEose = [.eose subID] ∧ u.SameLive s' := by
    intro u hu
    obtain ⟨answer, -, hsent⟩ := map_eq_some_iff.mp hu
    exact hdone (isEose_sendResponseFrames s subID answer) (congrArg some hsent)
  simp only [serve, ite_none_left_eq_some] at h
  obtain ⟨-, h⟩ := h
  simp only [requested]
  split_ifs at h ⊢
  · exact ⟨(hdone rfl h).1, (hdone rfl h).2⟩
  · cases hsub : notifySubscription (cacheCallFromFilters filters).1
        (cacheCallFromFilters filters).2 <;> simp only [hsub] at h <;> exact hdone rfl h
  · cases hsub : parseDMLiveSubscription filters <;> simp only [hsub] at h
    · exact hanswer h
    · exact hdone rfl h
  · cases hsub : parseDMLiveSubscription filters <;> simp only [hsub] at h <;> exact hanswer h

theorem sameLive_allowRequest : s.SameLive (allowRequest opts now filters s).2 := by
  simp only [allowRequest]
  split_ifs <;> exact ⟨rfl, rfl, rfl⟩

def Session.inWindow (s : Session) (now : ℤ) (count : ℕ) : ℕ :=
  if now - s.windowStarted < 60000000000 then count else 0

@[mk_iff]
structure Accepts (opts : Options) (now : ℤ) (filters : List Json) (s : Session) : Prop where
  filtered : filters.isEmpty = false
  room : s.subscriptions.length < opts.maxSubscriptions
  requests : s.inWindow now s.reqInWindow < opts.maxReqPerMinute
  broadcasts : isBroadcastRequest filters →
    s.inWindow now s.broadcastInWindow < opts.maxBroadcastPerMinute
  directMessages : isDirectMessagesRequest filters →
    s.inWindow now s.dmReqInWindow < opts.maxDMReqPerMinute

/-- A filter names kinds or authors, or the answer that is needed cannot be encoded. -/
def EndsSession (filters : List Json) (answer : Option (List Answer)) : Prop :=
  filtersUseKindOrAuthor filters ∨
    answer = none ∧ (cacheCallFromFilters filters).1 ∉
        ["set_primal_protocol", "notification_counts", "notification_counts_2"] ∧
      ¬ ((parseDMLiveSubscription filters).isSome ∧ hasOnlyDMLiveFilters filters)

theorem allowRequest_eq_none_iff : (allowRequest opts now filters s).1 = none ↔
    s.inWindow now s.reqInWindow < opts.maxReqPerMinute ∧ (isBroadcastRequest filters →
        s.inWindow now s.broadcastInWindow < opts.maxBroadcastPerMinute) ∧
      (isDirectMessagesRequest filters →
        s.inWindow now s.dmReqInWindow < opts.maxDMReqPerMinute) := by
  grind [allowRequest, Session.inWindow]

theorem refuse_spec :
    match refuse opts now subID filters s with
    | (some _, s') => ¬ Accepts opts now filters s ∧ s.SameLive s'
    | (none, s') => Accepts opts now filters s ∧
        ({ s with subscriptions := s.subscriptions.insert subID } : Session).SameLive s' := by
  have hsame := @sameLive_allowRequest opts now filters s
  have hallow := @allowRequest_eq_none_iff opts now filters s
  simp only [accepts_iff, refuse, ← hallow]
  split_ifs with hempty
  · exact ⟨fun h => Bool.noConfusion (hempty.symm.trans h.1), rfl, rfl, rfl⟩
  · cases hs : allowRequest opts now filters s with
    | mk text session =>
      rw [hs] at hsame
      cases text with
      | some text => exact ⟨by simp, hsame⟩
      | none =>
        simp only [reserveSubscription]
        rw [hsame.1]
        split_ifs with hfull
        · exact ⟨fun h => absurd h.2.1 (not_lt.mpr hfull), hsame⟩
        · exact ⟨⟨by simpa using hempty, not_le.mp hfull, trivial⟩, rfl, hsame.2⟩

theorem serve_eq_none_iff : serve subID filters answer s = none ↔ EndsSession filters answer := by
  simp only [serve, EndsSession]
  split_ifs with hkind hset hnotify honly
  · simp [hkind]
  · simp [hkind, hset]
  · cases notifySubscription _ _ <;> rcases hnotify with h | h <;> simp [hkind, h]
  all_goals
    simp only [not_or] at hnotify
    cases hsub : parseDMLiveSubscription filters <;> simp [hkind, hset, hnotify, honly]

end

/-- Beside the session: the stream that the latest accepted request of an id has asked for, and the
frames with which the last request was answered. -/
structure State where
  session : Session
  asked : String → Option Stream
  last : Option (String × List Frame)

inductive Action where
  | req (now : ℤ) (subID : String) (filters : List Json) (answer : Option (List Answer))
  | close (subID : String)

def init (now : ℤ) : State :=
  { session :=
      { subscriptions := [], dmLive := fun _ => none, notify := fun _ => none, compression := false,
        windowStarted := now, reqInWindow := 0, dmReqInWindow := 0, broadcastInWindow := 0 }
    asked := fun _ => none
    last := none }

variable (opts : Options)

def step (s : State) : Action → Option State
  | .req now subID filters answer =>
    (handleREQFrame opts now subID filters answer s.session).map fun (frames, session) =>
      { session
        asked := if (refuse opts now subID filters s.session).1.isSome then s.asked
          else Function.update s.asked subID (requested filters)
        last := some (subID, frames) }
  | .close subID =>
    some { session := s.session.dropSubscription subID, asked := Function.update s.asked subID none,
           last := none }

def Session.streams (s : Session) (subID : String) : List Stream :=
  (s.dmLive subID).toList ++ (s.notify subID).toList

structure Consistent (s : State) : Prop where
  answered : ∀ p ∈ s.last, p.2.filter Frame.isEose = [.eose p.1]
  bounded : s.session.subscriptions.length ≤ opts.maxSubscriptions
  reserved : ∀ id, s.session.streams id ≠ [] → id ∈ s.session.subscriptions
  driven : ∀ id, (s.session.streams id).length ≤ 1 ∧
    ∀ stream ∈ s.session.streams id, s.asked id = some stream

def Session.otherSort (s : Session) (subID : String) : Stream → Option Stream
  | .dmLive _ _ _ => s.notify subID
  | .notifyLive _ _ => s.dmLive subID

/-- No accepted request asks for a stream on an id with a live stream of the other sort. -/
def KeepsSort (s : State) : Action → Prop
  | .req now subID filters answer =>
    Accepts opts now filters s.session → ¬ EndsSession filters answer →
      ∀ stream ∈ requested filters, s.session.otherSort subID stream = none
  | .close _ => True

section
variable {u v : Session} {subID id : String} {r : Option Stream}

theorem streams_ne (hne : id ≠ subID) : (u.settle subID r).streams id = u.streams id := by
  cases r with
  | none => simp [Session.settle, Session.dropSubscription, Session.streams, hne]
  | some stream => cases stream <;>
      simp [Session.settle, Session.addStream, Session.streams, hne]

theorem streams_none : (u.settle subID none).streams subID = [] := by
  simp [Session.settle, Session.dropSubscription, Session.streams]

theorem streams_some (stream : Stream) : ((u.settle subID (some stream)).streams subID).Perm
    (stream :: (u.otherSort subID stream).toList) := by
  cases stream with
  | dmLive kind receiver sender =>
    simp [Session.settle, Session.addStream, Session.streams, Session.otherSort]
  | notifyLive pubkey version =>
    simp [Session.settle, Session.addStream, Session.streams, Session.otherSort]

theorem mem_settle (hid : id ∈ u.subscriptions) (hlive : (u.settle subID r).streams id ≠ []) :
    id ∈ (u.settle subID r).subscriptions := by
  cases r with
  | none =>
    have hne : id ≠ subID := fun heq => hlive (heq ▸ streams_none)
    simp [Session.settle, Session.dropSubscription, hid, hne]
  | some stream => cases stream <;> exact hid

theorem length_settle : (u.settle subID r).subscriptions.length ≤ u.subscriptions.length := by
  cases r with
  | none => exact length_filter_le _ _
  | some stream => cases stream <;> exact le_rfl

theorem streams_congr (h : u.SameLive v) (id : String) : v.streams id = u.streams id := by
  rw [Session.streams, h.2.1, h.2.2, Session.streams]

theorem sameLive_settle (h : u.SameLive v) : (u.settle subID r).SameLive (v.settle subID r) := by
  obtain ⟨hsubs, hdm, hnotify⟩ := h
  cases r with
  | none => simp [Session.settle, Session.dropSubscription, Session.SameLive, hsubs, hdm, hnotify]
  | some stream => cases stream <;>
      simp [Session.settle, Session.addStream, Session.SameLive, hsubs, hdm, hnotify]

end

variable {opts} {s s' : State} {a : Action}

theorem consistent_settle (h : Consistent opts s) {subID : String} {r : Option Stream}
    {subs : List String} {last : Option (String × List Frame)} {session : Session}
    (hlast : ∀ p ∈ last, p.2.filter Frame.isEose = [.eose p.1])
    (hsubs : subs.length ≤ opts.maxSubscriptions)
    (hmem : ∀ id ∈ s.session.subscriptions, id ∈ subs) (hself : subID ∈ subs ∨ r = none)
    (hlive : (({ s.session with subscriptions := subs } : Session).settle subID r).SameLive
      session) :
    Consistent opts { session, asked := Function.update s.asked subID r, last } ↔
      ∀ stream ∈ r, s.session.otherSort subID stream = none := by
  have hstreams := streams_congr hlive
  have hother : ∀ stream, ({ s.session with subscriptions := subs } : Session).otherSort subID
      stream = s.session.otherSort subID stream := fun stream => by cases stream <;> rfl
  constructor
  · rintro hnew stream rfl
    have hlen := (hnew.driven subID).1
    rw [hstreams, (streams_some stream).length_eq, hother] at hlen
    cases hs : s.session.otherSort subID stream with
    | none => rfl
    | some other => simp [hs] at hlen
  · intro hnone
    refine ⟨hlast, ?_, fun id hne => ?_, fun id => ?_⟩
    · rw [hlive.1]
      exact length_settle.trans hsubs
    · rw [hstreams] at hne
      rw [hlive.1]
      refine mem_settle ?_ hne
      by_cases hid : id = subID
      · subst hid
        refine hself.resolve_right ?_
        rintro rfl
        exact hne streams_none
      · rw [streams_ne hid] at hne
        exact hmem id (h.reserved id hne)
    · rw [hstreams]
      by_cases hid : id = subID
      · subst hid
        cases r with
        | none => simp [streams_none]
        | some stream =>
          have hperm := @streams_some { s.session with subscriptions := subs } id stream
          rw [hother, hnone stream rfl] at hperm
          refine ⟨hperm.length_eq.le, fun other hmem => ?_⟩
          rw [mem_singleton.mp (hperm.mem_iff.mp hmem)]
          exact Function.update_self ..
      · rw [streams_ne hid]
        refine ⟨(h.driven id).1, fun other hmem => ?_⟩
        rw [← (h.driven id).2 other hmem]
        exact Function.update_of_ne hid ..

theorem consistent_step_iff (h : Consistent opts s) (hstep : step opts s a = some s') :
    Consistent opts s' ↔ KeepsSort opts s a := by
  cases a with
  | close subID =>
    cases hstep
    refine iff_of_true ((consistent_settle h ?_ h.bounded (fun _ hid => hid) (.inr rfl)
      ⟨rfl, rfl, rfl⟩).mpr ?_) trivial
    · simp
    · simp
  | req now subID filters answer =>
    obtain ⟨⟨frames, session⟩, hframe, rfl⟩ := map_eq_some_iff.mp hstep
    have hspec := @refuse_spec opts now subID filters s.session
    simp only [handleREQFrame] at hframe
    split at hframe <;> rename_i hrefuse <;> simp only [hrefuse] at hspec ⊢
    · cases hframe
      obtain ⟨hnot, hlive⟩ := hspec
      refine iff_of_true ⟨?_, ?_, fun id hne => ?_, fun id => ?_⟩ (absurd · hnot)
      · rintro p ⟨⟩
        rfl
      · exact hlive.1 ▸ h.bounded
      · rw [streams_congr hlive] at hne
        exact hlive.1 ▸ h.reserved id hne
      · rw [streams_congr hlive]
        exact h.driven id
    · obtain ⟨haccepts, hreserved⟩ := hspec
      obtain ⟨heose, hlive⟩ := serve_spec hframe
      have hends : ¬ EndsSession filters answer := fun hends =>
        nomatch (serve_eq_none_iff.mpr hends).symm.trans hframe
      have hsame := @sameLive_settle _ _ subID (requested filters) hreserved
      rw [KeepsSort, imp_iff_right haccepts, imp_iff_right hends, if_neg nofun]
      refine consistent_settle h ?_ ?_ (fun _ hid => mem_insert_of_mem hid)
        (.inl mem_insert_self) ⟨?_, ?_, ?_⟩
      · rintro p ⟨⟩
        exact heose
      · by_cases hid : subID ∈ s.session.subscriptions
        · exact (length_insert_of_mem hid).trans_le haccepts.room.le
        · exact (length_insert_of_not_mem hid).trans_le haccepts.room
      · exact hlive.1.trans hsame.1
      · exact hlive.2.1.trans hsame.2.1
      · exact hlive.2.2.trans hsame.2.2

/-- A run keeps its subscriptions consistent exactly when it asks for no stream on an id with a live
stream of the other sort. -/
theorem consistent_iff_keepsSort (opts : Options) (now : ℤ) (actions : List Action) :
    Always (step opts) (Consistent opts) (init now) actions ↔
      Guarded (step opts) (KeepsSort opts) (init now) actions := by
  refine always_iff_guarded (J := fun _ => True) (fun _ _ _ _ _ => trivial)
    (fun s a s' _ hs h => consistent_step_iff hs h) (fun s a _ _ h => ?_) trivial ?_
  · cases a with
    | close subID => trivial
    | req now subID filters answer =>
      have hframe := map_eq_none_iff.mp h
      simp only [handleREQFrame] at hframe
      split at hframe
      · exact nomatch hframe
      · exact fun _ hends => absurd (serve_eq_none_iff.mp hframe) hends
  · exact ⟨nofun, Nat.zero_le _, fun _ hne => absurd rfl hne, fun _ => ⟨Nat.zero_le _, nofun⟩⟩

def twoSorts : List Action :=
  let pubkey : String := .ofList (List.replicate 64 'a')
  let call (name : String) : List Json :=
    [.obj [("cache", .arr [.str name, .obj [("pubkey", .str pubkey)]])]]
  [.req 0 "counts" (call "notification_counts") (some []),
    .req 1 "counts" (call "directmsg_count") (some [])]

theorem twoSorts_not_consistent :
    ¬ Always (step ⟨8, 8, 8, 8⟩) (Consistent ⟨8, 8, 8, 8⟩) (init 0) twoSorts := by
  have hstreams : ((run (step ⟨8, 8, 8, 8⟩) (init 0) twoSorts).map fun s =>
      (s.session.streams "counts").length) = some 2 := by decide
  obtain ⟨s, hrun, hlength⟩ := map_eq_some_iff.mp hstreams
  intro h
  have hone := ((h twoSorts (prefix_refl _) s hrun).driven "counts").1
  omega

end NostrMash.PrimalSession
