import Mathlib.Data.List.Basic
import Mathlib.Algebra.Order.Ring.Int

/-!
# A relay and its answers

A relay holds finitely many events in the order in which it lists them, the newest first. It
answers a request with the first events of that order that match, as many as the limit allows.
-/

namespace NostrMash
open List

structure RelayEvent where
  id : String
  kind : ℤ
  createdAt : ℤ
  deriving DecidableEq

structure RelayFilter where
  kinds : List ℤ
  since : Option ℤ
  untilTime : Option ℤ
  limit : ℕ

def RelayFilter.matches (f : RelayFilter) (e : RelayEvent) : Bool :=
  e.kind ∈ f.kinds && f.since.all (· ≤ e.createdAt) && f.untilTime.all (e.createdAt ≤ ·)

structure Relay where
  events : List RelayEvent
  nodup : events.Nodup
  newestFirst : events.Pairwise fun a b => b.createdAt ≤ a.createdAt

namespace Relay

variable (R : Relay)

def matching (f : RelayFilter) : List RelayEvent := R.events.filter f.matches

def answer (f : RelayFilter) : List RelayEvent := (R.matching f).take f.limit

variable {R} {f g : RelayFilter}

theorem matches_of_newer (hkinds : g.kinds = f.kinds) (huntil : g.untilTime = f.untilTime)
    {e x : RelayEvent} (he : f.matches e = true) (hx : g.matches x = true)
    (hle : x.createdAt ≤ e.createdAt) : g.matches e = true := by
  simp only [RelayFilter.matches, Bool.and_eq_true, Option.all_eq_true, decide_eq_true_eq]
    at he hx ⊢
  rw [hkinds, huntil]
  exact ⟨⟨he.1.1, fun s hs => (hx.1.2 s hs).trans hle⟩, he.2⟩

theorem not_mem_answer_of_crowded (pre post : List RelayEvent) {x : RelayEvent}
    (hevents : R.events = pre ++ x :: post) (hpre : f.limit ≤ (pre.filter f.matches).length)
    (hkinds : g.kinds = f.kinds) (huntil : g.untilTime = f.untilTime) (hlimit : g.limit = f.limit) :
    x ∉ R.answer g := by
  intro hmem
  have hx : g.matches x = true := (mem_filter.mp (mem_of_mem_take hmem)).2
  have hsorted := hevents ▸ R.newestFirst
  have hnodup := hevents ▸ R.nodup
  have hcount : g.limit ≤ (pre.filter g.matches).length := by
    rw [hlimit]
    refine hpre.trans ?_
    rw [← countP_eq_length_filter, ← countP_eq_length_filter]
    refine countP_mono_left fun e he hf => matches_of_newer hkinds huntil hf hx ?_
    exact (pairwise_append.mp hsorted).2.2 e he x (.head _)
  have htake : R.answer g = (pre.filter g.matches).take g.limit := by
    rw [answer, matching, hevents, filter_append, take_append_of_le_length hcount]
  have hin : x ∈ pre := (mem_filter.mp (mem_of_mem_take (htake ▸ hmem))).1
  exact (nodup_append.mp hnodup).2.2 x hin x (.head _) rfl

theorem exists_never_answered (h : f.limit < (R.matching f).length) :
    ∃ x ∈ R.matching f, ∀ g : RelayFilter, g.kinds = f.kinds → g.untilTime = f.untilTime →
      g.limit = f.limit → x ∉ R.answer g := by
  have hsplit : R.matching f = (R.matching f).take f.limit ++ (R.matching f).get ⟨f.limit, h⟩ ::
      (R.matching f).drop (f.limit + 1) := by
    rw [get_eq_getElem, getElem_cons_drop, take_append_drop]
  obtain ⟨l₁, l₂, hl, hl₁, hl₂⟩ := filter_eq_append_iff.mp hsplit
  obtain ⟨l₃, post, rfl, -, -, -⟩ := filter_eq_cons_iff.mp hl₂
  refine ⟨(R.matching f).get ⟨f.limit, h⟩, get_mem _ _, fun g hkinds huntil hlimit => ?_⟩
  refine not_mem_answer_of_crowded (l₁ ++ l₃) post (by rw [hl, append_assoc]) ?_ hkinds
    huntil hlimit
  rw [filter_append, hl₁, length_append, length_take]
  omega

end Relay
end NostrMash
