import NostrMash.LongFormThread

/-!
# The list behind the pages of an article

All pages of the thread of an article are cut from one list: the collected replies and comments as
they are, or merged with the notes of the `a` tag and sorted.
-/

namespace NostrMash.Threads
open KeysetPaging List
variable {r : Reply}

section
variable {m v : List Reply}

theorem appendUnique_map (m v : List Reply) :
    appendUnique OrderedReply.id (m.map Reply.ordered) (v.map Reply.ordered) =
      (appendUnique Reply.id m v).map Reply.ordered := by
  induction v generalizing m with
  | nil => rfl
  | cons r v ih =>
    have hids : (m.map Reply.ordered).map OrderedReply.id = m.map Reply.id := map_map
    have hid : r.ordered.id = r.id := rfl
    simp only [appendUnique, map_cons, foldl_cons, hids, hid] at ih ⊢
    split_ifs
    · exact ih m
    · have hnew := ih (m ++ [r])
      rw [map_append] at hnew
      exact hnew

theorem descending_ordered (rows : List Reply) :
    descending OrderedReply.key (rows.map Reply.ordered) =
      (descending Reply.key rows).map Reply.ordered :=
  (map_insertionSort _ _ Reply.ordered rows fun _ _ _ _ => Iff.rfl).symm

theorem nodup_appendUnique (hm : (m.map Reply.id).Nodup) :
    ((appendUnique Reply.id m v).map Reply.id).Nodup := by
  induction v generalizing m with
  | nil => exact hm
  | cons r v ih =>
    rw [appendUnique, foldl_cons]
    split_ifs with hold
    · exact ih hm
    · refine ih ?_
      rw [map_append, map_singleton, nodup_append]
      refine ⟨hm, nodup_singleton _, fun x hx y hy hxy => hold (.inr ?_)⟩
      rwa [← mem_singleton.mp hy, ← hxy]

theorem mem_appendUnique (hsame : ∀ r ∈ m ++ v, ∀ s ∈ m ++ v, r.id = s.id → r = s) :
    r ∈ appendUnique Reply.id m v ↔ r ∈ m ∨ r ∈ v := by
  induction v generalizing m with
  | nil => simp [appendUnique]
  | cons q v ih =>
    rw [appendUnique, foldl_cons]
    split_ifs with hold
    · obtain ⟨s, hs, hsq⟩ := mem_map.mp (hold.resolve_left q.trimSpace_id.2)
      have hq : s = q := hsame s (mem_append_left _ hs) q (by simp) hsq
      have hsub : m ++ v ⊆ m ++ q :: v := by simp [subset_def]; tauto
      refine (ih fun x hx y hy => hsame x (hsub hx) y (hsub hy)).trans ?_
      rw [mem_cons]
      constructor
      · tauto
      · rintro (h | rfl | h)
        · exact .inl h
        · exact .inl (hq ▸ hs)
        · exact .inr h
    · refine (ih fun x hx y hy => hsame x (by simpa using hx) y (by simpa using hy)).trans ?_
      simp [or_assoc]

end

variable (a : Article) (limit : ℕ)

def shownRows : List Reply :=
  let extra := (descending Reply.key a.aTagRows).take (limit + 1000)
  if extra.isEmpty then (collectedRows a).reverse
  else descending Reply.key
    (appendUnique Reply.id (appendUnique Reply.id [] (collectedRows a).reverse) extra)

variable {a limit}

theorem mem_collectedRows : r ∈ collectedRows a ↔
    r ∈ a.thread.replies ∨ r ∈ (ascending Reply.key a.comments).take 100 := by
  have hreply : r ∈ a.thread.replies ↔ r ∈ (ascending Reply.key a.thread.replies).take 100 ∨
      r ∈ (ascending Reply.key a.thread.replies).drop 100 := by
    rw [← mem_append, take_append_drop, mem_ascending]
  simp only [collectedRows, mem_append, hreply]
  tauto

theorem mem_comments_of_take {n : ℕ} (h : r ∈ (ascending Reply.key a.comments).take n) :
    r ∈ a.comments :=
  mem_ascending.mp (mem_of_mem_take h)

theorem mem_aTagRows_of_take {n : ℕ} (h : r ∈ (descending Reply.key a.aTagRows).take n) :
    r ∈ a.aTagRows :=
  (perm_descending _).mem_iff.mp (mem_of_mem_take h)

theorem nodup_collectedRows (a : Article) : ((collectedRows a).map Reply.id).Nodup := by
  have hperm : (collectedRows a).Perm
      (a.thread.replies ++ (ascending Reply.key a.comments).take 100) := by
    have hreplies : (ascending Reply.key a.thread.replies).Perm a.thread.replies :=
      perm_descending a.thread.replies
    refine List.Perm.trans ?_ (hreplies.append_right _)
    conv_rhs => rw [← take_append_drop 100 (ascending Reply.key a.thread.replies)]
    rw [collectedRows, append_assoc, append_assoc]
    exact perm_append_comm.append_left _
  have hcomments : (((ascending Reply.key a.comments).take 100).map Reply.id).Nodup := by
    refine ((take_sublist _ _).map _).nodup ?_
    exact ((perm_descending a.comments).map Reply.id).nodup_iff.mpr a.comment_key
  rw [(hperm.map Reply.id).nodup_iff, map_append, nodup_append]
  refine ⟨a.thread.child_key, hcomments, ?_⟩
  simp only [forall_mem_map]
  exact fun r hr c hc => a.comment_kind c (mem_comments_of_take hc) r (mem_append_left _ hr)

theorem eq_of_id_eq {s : Reply} (hr : r ∈ collectedRows a ∨ r ∈ a.aTagRows)
    (hs : s ∈ collectedRows a ∨ s ∈ a.aTagRows) (hid : r.id = s.id) : r = s := by
  have haTag : ∀ r ∈ a.aTagRows, ∀ s, s ∈ collectedRows a ∨ s ∈ a.aTagRows →
      r.id = s.id → r = s := by
    intro r hr s hs hid
    rcases hs with hs | hs
    · rcases mem_collectedRows.mp hs with hs | hs
      · exact a.aTag_event r hr s (mem_append_left _ hs) hid
      · exact absurd hid (a.comment_kind s (mem_comments_of_take hs) r (mem_append_right _ hr))
    · exact a.aTag_event r hr s (mem_append_right _ hs) hid
  rcases hr with hr | hr
  · rcases hs with hs' | hs'
    · exact inj_on_of_nodup_map (nodup_collectedRows a) hr hs' hid
    · exact (haTag s hs' r (.inl hr) hid.symm).symm
  · exact haTag r hr s hs hid

theorem nodup_shownRows (a : Article) (limit : ℕ) : ((shownRows a limit).map Reply.id).Nodup := by
  unfold shownRows
  dsimp only
  split_ifs
  · rw [map_reverse, nodup_reverse]
    exact nodup_collectedRows a
  · rw [((perm_descending _).map Reply.id).nodup_iff]
    exact nodup_appendUnique (nodup_appendUnique nodup_nil)

theorem mem_shownRows : r ∈ shownRows a limit ↔
    r ∈ a.thread.replies ∨ r ∈ (ascending Reply.key a.comments).take 100 ∨
      r ∈ (descending Reply.key a.aTagRows).take (limit + 1000) := by
  unfold shownRows
  dsimp only
  split_ifs with hextra
  · rw [mem_reverse, mem_collectedRows, List.isEmpty_iff.mp hextra]
    simp
  · have hbase : ∀ s, s ∈ appendUnique Reply.id [] (collectedRows a).reverse ↔
        s ∈ collectedRows a := by
      intro s
      rw [mem_appendUnique]
      · simp
      · intro x hx y hy
        exact eq_of_id_eq (.inl (by simpa using hx)) (.inl (by simpa using hy))
    have hmem : ∀ s ∈ appendUnique Reply.id [] (collectedRows a).reverse ++
        (descending Reply.key a.aTagRows).take (limit + 1000),
        s ∈ collectedRows a ∨ s ∈ a.aTagRows := by
      intro s hs
      rcases mem_append.mp hs with hs | hs
      · exact .inl ((hbase s).mp hs)
      · exact .inr (mem_aTagRows_of_take hs)
    have hsame := fun x hx y hy => eq_of_id_eq (hmem x hx) (hmem y hy)
    rw [(perm_descending _).mem_iff, mem_appendUnique hsame, hbase, mem_collectedRows, or_assoc]

theorem extra_isEmpty : ((descending Reply.key a.aTagRows).take (limit + 1000)).isEmpty = true ↔
    a.aTagRows = [] := by
  rw [List.isEmpty_iff, take_eq_nil_iff, or_iff_right (by omega), ← length_eq_zero_iff,
    (perm_descending _).length_eq, length_eq_zero_iff]

end NostrMash.Threads
