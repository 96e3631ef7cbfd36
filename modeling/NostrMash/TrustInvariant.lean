import NostrMash.TrustRuns

/-!
# The snapshots in use

While a run goes on, the snapshot that one of its syncs writes grows to the rows which the sync has
read, and stays complete until its compute has staged the ranking.
-/

namespace NostrMash.Trust
open Finset

section
variable {rows : List Edge} {pubkey : String}

theorem trimmed_of_mem_cleanEdges {e : Edge} (h : e ∈ cleanEdges rows) :
    (trimSpace e.1 = e.1 ∧ e.1 ≠ "") ∧ trimSpace e.2 = e.2 ∧ e.2 ≠ "" := by
  obtain ⟨hmap, hne⟩ := List.mem_filter.mp h
  obtain ⟨row, -, rfl⟩ := List.mem_map.mp hmap
  simp only [ne_eq, Bool.and_eq_true, decide_eq_true_eq] at hne
  exact ⟨⟨trimSpace_trimSpace _, hne.1⟩, trimSpace_trimSpace _, hne.2⟩

theorem mem_endpoints {edges : Finset Edge} :
    pubkey ∈ endpoints edges ↔ ∃ e ∈ edges, e.1 = pubkey ∨ e.2 = pubkey := by
  simp only [endpoints, mem_union, mem_image]
  constructor
  · rintro (⟨e, he, rfl⟩ | ⟨e, he, rfl⟩)
    · exact ⟨e, he, .inl rfl⟩
    · exact ⟨e, he, .inr rfl⟩
  · rintro ⟨e, he, rfl | rfl⟩
    · exact .inl ⟨e, he, rfl⟩
    · exact .inr ⟨e, he, rfl⟩

theorem endpoints_union (a b : Finset Edge) : endpoints (a ∪ b) = endpoints a ∪ endpoints b := by
  simp only [endpoints, image_union]
  ac_rfl

theorem trimmed_of_mem_nodes (h : pubkey ∈ (FollowGraph.ofRows rows).nodes) :
    trimSpace pubkey = pubkey ∧ pubkey ≠ "" := by
  obtain ⟨e, he, rfl | rfl⟩ := mem_endpoints.mp h
  · exact (trimmed_of_mem_cleanEdges (List.mem_toFinset.mp he)).1
  · exact (trimmed_of_mem_cleanEdges (List.mem_toFinset.mp he)).2

theorem loadNodes_ofRows (rows : List Edge) :
    loadNodes (FollowGraph.ofRows rows) = (FollowGraph.ofRows rows).nodes := by
  have himage : (FollowGraph.ofRows rows).nodes.image trimSpace =
      (FollowGraph.ofRows rows).nodes.image id :=
    image_congr fun _ h => (trimmed_of_mem_nodes h).1
  rw [loadNodes, himage, image_id]
  exact filter_true_of_mem fun _ h => (trimmed_of_mem_nodes h).2

theorem loadAdjacency_ofRows (rows : List Edge) :
    loadAdjacency (FollowGraph.ofRows rows).nodes (FollowGraph.ofRows rows) =
      FollowGraph.ofRows rows := by
  have hfilter : (FollowGraph.ofRows rows).follows.filter
      (fun e => e.1 ∈ (FollowGraph.ofRows rows).nodes) = (FollowGraph.ofRows rows).follows :=
    filter_true_of_mem fun e he => mem_endpoints.mpr ⟨e, he, .inl rfl⟩
  have himage : (FollowGraph.ofRows rows).follows.image (fun e => (e.1, trimSpace e.2)) =
      (FollowGraph.ofRows rows).follows.image id :=
    image_congr fun e he =>
      Prod.ext rfl (trimmed_of_mem_cleanEdges (List.mem_toFinset.mp he)).2.1
  have hblank : (FollowGraph.ofRows rows).follows.filter (fun e => e.2 ≠ "") =
      (FollowGraph.ofRows rows).follows :=
    filter_true_of_mem fun e he =>
      (trimmed_of_mem_cleanEdges (List.mem_toFinset.mp he)).2.2
  simp only [loadAdjacency, hfilter, himage, image_id, hblank]
  apply FollowGraph.ext
  · exact union_eq_left.mpr subset_union_right
  · rfl

end

namespace FollowGraph

@[simp] theorem addEdges_nil (g : FollowGraph) : g.addEdges [] = g := by
  simp [addEdges, endpoints]

theorem addEdges_append (g : FollowGraph) (a b : List Edge) :
    (g.addEdges a).addEdges b = g.addEdges (a ++ b) := by
  simp [addEdges, endpoints_union, union_assoc]

theorem addEdges_comm (g : FollowGraph) (a b : List Edge) :
    (g.addEdges a).addEdges b = (g.addEdges b).addEdges a := by
  simp only [addEdges, mk.injEq]
  exact ⟨union_right_comm .., union_right_comm ..⟩

theorem ofRows_addEdges {rows batch : List Edge} (h : ∀ e ∈ batch, e ∈ cleanEdges rows) :
    (ofRows rows).addEdges batch = ofRows rows := by
  have hsub : batch.toFinset ⊆ (cleanEdges rows).toFinset := fun e he => by
    simpa using h e (by simpa using he)
  have hnodes : endpoints batch.toFinset ⊆ endpoints (cleanEdges rows).toFinset := fun p hp => by
    obtain ⟨e, he, hep⟩ := mem_endpoints.mp hp
    exact mem_endpoints.mpr ⟨e, hsub he, hep⟩
  exact FollowGraph.ext (union_eq_left.mpr hnodes) (union_eq_left.mpr hsub)

@[simp] theorem unlink_empty (key : SnapshotKey) : empty.unlink key = empty := by
  cases key <;> rfl

end FollowGraph

namespace TrustState

variable {ι σ : Type} {R : Ranker ι σ} {s t : TrustState σ}

/-- The rows are the ranking of what a sync of the run has read, and none of its nodes is
missing. -/
def OwnRanking (R : Ranker ι σ) (s : TrustState σ) (run : ℕ) (rows : List (ScoreRow σ)) : Prop :=
  ∃ ref read input, s.written run ref = some read ∧
    rows = stageRows run (R.rank (FollowGraph.ofRows read) input) ∧
    ∀ pubkey, pubkey ∈ rows.map ScoreRow.pubkey ↔ pubkey ∈ (FollowGraph.ofRows read).nodes

def PublishesOwn (R : Ranker ι σ) (s : TrustState σ) : Prop :=
  ∀ run, s.promoted = some run → s.OwnRanking R run s.published

/-- The run is not finished, and the snapshot is being written or still to be ranked. -/
def InUse (s : TrustState σ) (run ref : ℕ) : Prop :=
  s.isTerminal run = false ∧
    (((run, ref) ∈ s.computeJobs ∧ (run, ref) ∉ s.promoteJobs) ∨
      ∃ id, (∃ left, s.attempts id = some (.writing run ref left)) ∨
        s.attempts id = some (.reaping run ref))

/-- No key of a snapshot in use goes away, the stage of a run is deleted only with the run failed
or finished, and a promote commits only while all published rows are rows that it has seen. -/
def Undisturbed (s : TrustState σ) : TrustAction ι → Prop
  | .syncReap _ run ref _ => ¬ s.InUse run ref
  | .expire run ref _ => ¬ s.InUse run ref
  | .promoteCommit id => ∀ run ref visible rows,
      s.attempts id = some (.inserted run ref visible rows) → ∀ row ∈ s.published, row ∈ visible
  | .fail _ run updated deleted =>
      deleted = true → updated = true ∨ s.isTerminal run = true ∨ s.stage run = []
  | _ => True

def Live (s : TrustState σ) (run ref : ℕ) : Prop :=
  s.isTerminal run = false ∧ (run, ref) ∉ s.promoteJobs

def AttemptOk (R : Ranker ι σ) (s : TrustState σ) (id : ℕ) : Attempt σ → Prop
  | .writing run ref left => ∃ read, s.written run ref = some read ∧
      (∀ e ∈ left, e ∈ cleanEdges read) ∧
      (s.isTerminal run = false → (s.redis run ref).addEdges left = FollowGraph.ofRows read)
  | .reaping run ref => ∃ read, s.written run ref = some read ∧
      (s.isTerminal run = false → s.redis run ref = FollowGraph.ofRows read)
  | .claimed run ref => (run, ref) ∈ s.computeJobs
  | .nodesLoaded run ref nodes => (run, ref) ∈ s.computeJobs ∧
      ∃ read, s.written run ref = some read ∧
        (s.Live run ref → nodes = (FollowGraph.ofRows read).nodes)
  | .loaded run ref graph => ∃ read, s.written run ref = some read ∧
      (s.Live run ref → graph = FollowGraph.ofRows read)
  | .cleared run ref _ => s.lockedBy run = some id ∧ (run, ref) ∈ s.promoteJobs ∧
      s.isTerminal run = false
  | .inserted run _ _ rows => s.lockedBy run = some id ∧ s.OwnRanking R run rows

structure Inv (R : Ranker ι σ) (s : TrustState σ) : Prop where
  fresh : ∀ run ref, s.written run ref = none → s.redis run ref = FollowGraph.empty
  attempts : ∀ id a, s.attempts id = some a → s.AttemptOk R id a
  computeJobs : ∀ run ref, (run, ref) ∈ s.computeJobs → ∃ read, s.written run ref = some read ∧
    (s.Live run ref → s.redis run ref = FollowGraph.ofRows read)
  staged : ∀ run ref, (run, ref) ∈ s.promoteJobs → s.isTerminal run = false →
    s.OwnRanking R run (s.stage run)
  published : s.PublishesOwn R

structure Extends (s t : TrustState σ) (actor : Option ℕ) : Prop where
  written : ∀ run ref read, s.written run ref = some read → t.written run ref = some read
  terminal : ∀ run, s.isTerminal run = true → t.isTerminal run = true
  computeJobs : s.computeJobs ⊆ t.computeJobs
  promoteJobs : s.promoteJobs ⊆ t.promoteJobs
  redis : ∀ run ref read left, s.InUse run ref → s.written run ref = some read →
    (∀ e ∈ left, e ∈ cleanEdges read) → (s.redis run ref).addEdges left = FollowGraph.ofRows read →
    (t.redis run ref).addEdges left = FollowGraph.ofRows read
  locks : ∀ run id, s.lockedBy run = some id → some id ≠ actor →
    t.lockedBy run = some id ∧ t.isTerminal run = s.isTerminal run
  attempts : ∀ id, some id ≠ actor → t.attempts id = s.attempts id

variable {actor : Option ℕ} {run : ℕ}

section
variable (he : Extends s t actor)
include he

theorem OwnRanking.extend {rows : List (ScoreRow σ)}
    (h : s.OwnRanking R run rows) : t.OwnRanking R run rows := by
  obtain ⟨ref, read, input, hw, hrows⟩ := h
  exact ⟨ref, read, input, he.written run ref read hw, hrows⟩

theorem Extends.running (h : t.isTerminal run = false) :
    s.isTerminal run = false := by
  by_contra hs
  rw [he.terminal run (by simpa using hs)] at h
  exact nomatch h

theorem Extends.live {ref : ℕ} (h : t.Live run ref) : s.Live run ref :=
  ⟨he.running h.1, fun hm => h.2 (he.promoteJobs hm)⟩

theorem AttemptOk.extend {id : ℕ} (hid : some id ≠ actor) {a : Attempt σ}
    (hatt : s.attempts id = some a) (h : s.AttemptOk R id a) :
    t.AttemptOk R id a := by
  cases a with
  | writing run ref left =>
    obtain ⟨read, hw, hleft, hredis⟩ := h
    refine ⟨read, he.written _ _ _ hw, hleft, fun ht => ?_⟩
    exact he.redis run ref read left
      ⟨he.running ht, .inr ⟨id, .inl ⟨left, hatt⟩⟩⟩ hw hleft (hredis (he.running ht))
  | reaping run ref =>
    obtain ⟨read, hw, hredis⟩ := h
    refine ⟨read, he.written _ _ _ hw, fun ht => ?_⟩
    have hkept := he.redis run ref read [] ⟨he.running ht, .inr ⟨id, .inr hatt⟩⟩ hw
      (fun _ hm => nomatch hm)
    simp only [FollowGraph.addEdges_nil] at hkept
    exact hkept (hredis (he.running ht))
  | claimed run ref => exact he.computeJobs h
  | nodesLoaded run ref nodes =>
    obtain ⟨hjob, read, hw, hnodes⟩ := h
    exact ⟨he.computeJobs hjob, read, he.written _ _ _ hw, fun hl => hnodes (he.live hl)⟩
  | loaded run ref graph =>
    obtain ⟨read, hw, hgraph⟩ := h
    exact ⟨read, he.written _ _ _ hw, fun hl => hgraph (he.live hl)⟩
  | cleared run ref visible =>
    obtain ⟨hlock, hjob, hrun⟩ := h
    have hl := he.locks run id hlock hid
    exact ⟨hl.1, he.promoteJobs hjob, hl.2.trans hrun⟩
  | inserted run ref visible rows =>
    exact ⟨(he.locks run id h.1 hid).1, h.2.extend he⟩

end

theorem Inv.extend (h : s.Inv R) (he : Extends s t actor)
    (hfresh : ∀ run ref, t.written run ref = none → t.redis run ref = FollowGraph.empty)
    (hactor : ∀ id a, some id = actor → t.attempts id = some a → t.AttemptOk R id a)
    (hjobs : ∀ run ref, (run, ref) ∈ t.computeJobs → (run, ref) ∈ s.computeJobs ∨
      ∃ read, t.written run ref = some read ∧ t.redis run ref = FollowGraph.ofRows read := by
        exact fun _ _ hm => .inl hm)
    (hstage : ∀ run ref, (run, ref) ∈ t.promoteJobs → t.isTerminal run = false →
      ((run, ref) ∈ s.promoteJobs ∧ t.stage run = s.stage run) ∨ t.OwnRanking R run (t.stage run) := by
        exact fun _ _ hm _ => .inl ⟨hm, rfl⟩)
    (hpub : (t.promoted = s.promoted ∧ t.published = s.published) ∨ t.PublishesOwn R := by
      exact .inl ⟨rfl, rfl⟩) :
    t.Inv R where
  fresh := hfresh
  attempts id a ha := by
    by_cases hid : some id = actor
    · exact hactor id a hid ha
    · have hs := (he.attempts id hid).symm.trans ha
      exact (h.attempts id a hs).extend he hid hs
  computeJobs run ref hm := by
    rcases hjobs run ref hm with hold | ⟨read, hw, hredis⟩
    · obtain ⟨read, hw, hredis⟩ := h.computeJobs run ref hold
      refine ⟨read, he.written _ _ _ hw, fun hl => ?_⟩
      have hls := he.live hl
      have hkept := he.redis run ref read [] ⟨hls.1, .inl ⟨hold, hls.2⟩⟩ hw
        (fun _ hm => nomatch hm)
      simp only [FollowGraph.addEdges_nil] at hkept
      exact hkept (hredis hls)
    · exact ⟨read, hw, fun _ => hredis⟩
  staged run ref hm hrun := by
    rcases hstage run ref hm hrun with ⟨hold, heq⟩ | hnew
    · rw [heq]
      exact (h.staged run ref hold (he.running hrun)).extend he
    · exact hnew
  published := by
    rcases hpub with ⟨hp, hrows⟩ | hnew
    · intro run hr
      rw [hrows]
      exact (h.published run (hp ▸ hr)).extend he
    · exact hnew

end TrustState
end NostrMash.Trust
