import Mathlib

/-!
# Keyset paging over rearranged pages

A listing in descending order of key is read page by page.
-/

namespace NostrMash.RearrangedPages
open List

structure Pager (α κ : Type*) where
  key : α → κ
  rows : List α
  keeps : α → Bool
  /-- What is shown, at an offset, of the fetched rows. -/
  arrange : ℕ → List α → List α
  limit : ℕ
  /-- How many rows are known to exist. -/
  total : ℕ
  maxOffset : ℕ

namespace Pager

variable {α κ : Type*}

section
variable (P : Pager α κ)

def part (o : ℕ) : List α := (P.rows.drop o).take P.limit

def Fetched (F : List α) : Prop := F.Sublist P.rows ∧ F.length ≤ P.limit

def Followed (o len : ℕ) : Prop := (len = P.limit ∨ o + len < P.total) ∧ o + len ≤ P.maxOffset

instance (o len : ℕ) : Decidable (P.Followed o len) :=
  inferInstanceAs (Decidable ((_ ∨ _) ∧ _))

/-- If a page comes after this one, it ends in the row that it fetched last. -/
def InPlace (o : ℕ) : Prop :=
  P.Followed o (P.part o).length → (P.arrange o (P.part o)).getLast? = (P.part o).getLast?

/-- From an offset on, no page stops short of the end of the listing and every page is in place. -/
def LaterInPlace (o : ℕ) : Prop :=
  ∀ k, o + k * P.limit < P.rows.length →
    (0 < k → o + k * P.limit ≤ P.maxOffset) ∧ P.InPlace (o + k * P.limit)

variable {P} {o : ℕ}

theorem fetched_take {R : List α} (hR : R.Sublist P.rows) : P.Fetched (R.take P.limit) :=
  ⟨(take_sublist _ _).trans hR, length_take_le _ _⟩

theorem fetched_part (o : ℕ) : P.Fetched (P.part o) := fetched_take (drop_sublist _ _)

theorem length_part (o : ℕ) : (P.part o).length = min P.limit (P.rows.length - o) := by
  rw [part, length_take, length_drop]

theorem take_length_part : (P.rows.drop o).take (P.part o).length = P.part o := by
  rw [length_part, ← length_drop, ← take_eq_take_min, part]

theorem laterInPlace_of_length_le (hend : P.rows.length ≤ o) : P.LaterInPlace o :=
  fun k hk => by omega

theorem laterInPlace_of_not_followed (hf : ¬ P.Followed o (P.part o).length) :
    P.LaterInPlace o ↔ P.rows.length ≤ o + P.limit := by
  have hpart := length_part (P := P) o
  constructor
  · intro hin
    by_contra hl
    have hmax := (hin 1 (by omega)).1 Nat.one_pos
    exact hf ⟨.inl (by omega), by omega⟩
  · intro hl k hk
    cases k with
    | zero =>
      rw [Nat.zero_mul, Nat.add_zero]
      exact ⟨fun h0 => absurd h0 (Nat.lt_irrefl 0), fun hf' => absurd hf' hf⟩
    | succ k =>
      have hmul : P.limit ≤ (k + 1) * P.limit := Nat.le_mul_of_pos_left _ (Nat.succ_pos k)
      omega

theorem laterInPlace_of_followed (hend : o < P.rows.length) (hf : P.Followed o (P.part o).length) :
    P.LaterInPlace o ↔ (P.arrange o (P.part o)).getLast? = (P.part o).getLast? ∧
      P.LaterInPlace (o + (P.part o).length) := by
  have hpart := length_part (P := P) o
  rw [LaterInPlace, ← Nat.and_forall_add_one, Nat.zero_mul, Nat.add_zero]
  refine and_congr ?_ (forall_congr' fun k => ?_)
  · exact ⟨fun hin => (hin hend).2 hf, fun hlast _ => ⟨by omega, fun _ => hlast⟩⟩
  · by_cases hfull : (P.part o).length = P.limit
    · rw [hfull, Nat.succ_mul, ← Nat.add_assoc, Nat.add_right_comm]
      refine imp_congr_right fun hk => and_congr_left fun _ => ⟨fun hmax _ => ?_, fun hmax _ => ?_⟩
      · exact hmax (Nat.succ_pos k)
      · cases k with
        | zero =>
          have := hf.2
          omega
        | succ k => exact hmax (Nat.succ_pos k)
    · have hmul : P.limit ≤ (k + 1) * P.limit := Nat.le_mul_of_pos_left _ (Nat.succ_pos k)
      exact iff_of_true (fun hk => by omega) fun hk => by omega

end

variable [LinearOrder κ] (P : Pager α κ)

def below : Option κ → List α
  | none => P.rows
  | some c => P.rows.filter fun a => P.key a < c

def page (o : ℕ) (cursor : Option κ) : List α × Option (ℕ × κ) :=
  let shown := P.arrange o ((P.below cursor).take P.limit)
  if P.Followed o shown.length then
    (shown, shown.getLast?.map fun a => (o + shown.length, P.key a))
  else (shown, none)

def follow : ℕ → ℕ → Option κ → Option (List α)
  | 0, _, _ => none
  | n + 1, o, cursor =>
    match P.page o cursor with
    | (shown, none) => some shown
    | (shown, some next) => (follow n next.1 (some next.2)).map (shown ++ ·)

/-- The pages from an offset on come to an end and show every row from there on exactly once. -/
def CompleteFrom (o : ℕ) (c : Option κ) : Prop :=
  ∃ n shown, P.follow n o c = some shown ∧ shown.Perm (P.rows.drop o)

/-- The pages come to an end and show every row exactly once. -/
def Complete : Prop := ∃ n shown, P.follow n 0 none = some shown ∧ shown.Perm P.rows

structure Lawful : Prop where
  sorted : P.rows.Pairwise fun a b => P.key b < P.key a
  limit_pos : 0 < P.limit
  subperm : ∀ o F, P.Fetched F → (P.arrange o F).Subperm (F.filter P.keeps)
  /-- Past the first page, every row that is kept is shown. -/
  later : ∀ o F, 0 < o → P.Fetched F → (P.arrange o F).Perm (F.filter P.keeps)
  ne_nil : ∀ F, P.Fetched F → F.filter P.keeps ≠ [] → P.arrange 0 F ≠ []

variable {P}

theorem below_sublist (c : Option κ) : (P.below c).Sublist P.rows := by
  cases c with
  | none => exact List.Sublist.refl _
  | some c => exact filter_sublist

namespace Lawful

theorem nodup (h : P.Lawful) : P.rows.Nodup := by
  refine h.sorted.imp fun {a b} hab => ?_
  rintro rfl
  exact lt_irrefl _ hab

theorem arrange_subset (h : P.Lawful) (o : ℕ) {F : List α} (hF : P.Fetched F) :
    P.arrange o F ⊆ F := fun _ ha =>
  (mem_filter.mp ((h.subperm o F hF).subset ha)).1

theorem below_key (h : P.Lawful) {U V : List α} {z : α} (hrows : P.rows = U ++ z :: V) :
    P.below (some (P.key z)) = V := by
  have hs := h.sorted
  rw [hrows, pairwise_append, pairwise_cons] at hs
  have hU : U.filter (fun a => P.key a < P.key z) = [] := by
    rw [filter_eq_nil_iff]
    intro a ha
    simpa using (hs.2.2 a ha z (.head _)).le
  have hV : V.filter (fun a => P.key a < P.key z) = V := by
    rw [filter_eq_self]
    intro a ha
    simpa using hs.2.1.1 a ha
  rw [below, hrows, filter_append, filter_cons, hU, hV]
  simp

end Lawful

variable {n o : ℕ} {c : Option κ} {shown rest : List α} {a : α}

theorem page_fst (o : ℕ) (c : Option κ) :
    (P.page o c).1 = P.arrange o ((P.below c).take P.limit) := by
  rw [page]
  split_ifs <;> rfl

theorem follow_of_page_none (h : P.page o c = (shown, none)) :
    P.follow (n + 1) o c = some shown := by
  rw [follow, h]

theorem follow_of_page_some {next : ℕ × κ} (h : P.page o c = (shown, some next)) :
    P.follow (n + 1) o c = (P.follow n next.1 (some next.2)).map (shown ++ ·) := by
  rw [follow, h]

theorem follow_cases {S : List α} (hS : P.arrange o ((P.below c).take P.limit) = S)
    (h : P.follow (n + 1) o c = some shown) : shown = S ∨ ∃ y rest, S.getLast? = some y ∧
      P.follow n (o + S.length) (some (P.key y)) = some rest ∧ shown = S ++ rest := by
  rcases hp : P.page o c with ⟨T, next⟩
  have hT : T = S := by rw [← hS, ← page_fst, hp]
  subst hT
  cases next with
  | none =>
    rw [follow_of_page_none hp] at h
    exact .inl (Option.some.inj h).symm
  | some next =>
    rw [follow_of_page_some hp] at h
    obtain ⟨rest, hrest, rfl⟩ := Option.map_eq_some_iff.mp h
    simp only [page, hS] at hp
    split_ifs at hp
    · obtain ⟨y, hy, rfl⟩ := Option.map_eq_some_iff.mp (Prod.mk.inj hp).2
      exact .inr ⟨y, rest, hy, hrest, rfl⟩
    · cases (Prod.mk.inj hp).2

theorem mem_follow (h : P.follow n o c = some shown)
    (ha : a ∈ P.arrange o ((P.below c).take P.limit)) : a ∈ shown := by
  cases n with
  | zero => cases h
  | succ n =>
    rcases follow_cases rfl h with rfl | ⟨y, rest, -, -, rfl⟩
    · exact ha
    · exact mem_append_left rest ha

theorem keeps_of_mem_follow (h : P.Lawful) (hf : P.follow n o c = some shown) (ha : a ∈ shown) :
    P.keeps a = true := by
  induction n generalizing o c shown with
  | zero => cases hf
  | succ n ih =>
    have hpage : ∀ b ∈ P.arrange o ((P.below c).take P.limit), P.keeps b = true := fun b hb =>
      (mem_filter.mp ((h.subperm o _ (fetched_take (below_sublist c))).subset hb)).2
    rcases follow_cases rfl hf with rfl | ⟨y, rest, -, hrest, rfl⟩
    · exact hpage a ha
    · rcases mem_append.mp ha with ha | ha
      · exact hpage a ha
      · exact ih hrest ha

theorem lt_of_mem_follow (h : P.Lawful) {k : κ} (hf : P.follow n o (some k) = some shown)
    (ha : a ∈ shown) : P.key a < k := by
  induction n generalizing o k shown with
  | zero => cases hf
  | succ n ih =>
    have hpage : ∀ b ∈ P.arrange o ((P.below (some k)).take P.limit), P.key b < k := by
      intro b hb
      have hmem := mem_of_mem_take
        (h.arrange_subset o (fetched_take (below_sublist (some k))) hb)
      simpa using (mem_filter.mp hmem).2
    rcases follow_cases rfl hf with rfl | ⟨y, rest, hy, hrest, rfl⟩
    · exact hpage a ha
    · rcases mem_append.mp ha with ha | ha
      · exact hpage a ha
      · exact (ih hrest ha).trans (hpage y (List.mem_of_getLast? hy))

end Pager
end NostrMash.RearrangedPages
