import Mathlib.Data.List.Nodup

/-! Doubly linked lists in a memory of nodes, with pointers to the first and the last node. The
address `0` is the null pointer. -/
namespace DoublyLinked

open Function List

structure Node (α : Type) where
  val : α
  next : ℕ
  prev : ℕ

structure Store (α : Type) where
  mem : ℕ → Node α
  head : ℕ
  tail : ℕ

variable {α : Type}

def Store.write (s : Store α) (a : ℕ) (n : Node α) : Store α :=
  { s with mem := update s.mem a n }

def Store.modify (s : Store α) (a : ℕ) (f : α → α) : Store α :=
  s.write a { s.mem a with val := f (s.mem a).val }

/-- Point the successor `c`, or the tail when there is none, back to `a`. -/
def Store.linkBack (s : Store α) (c a : ℕ) : Store α :=
  if c ≠ 0 then s.write c { s.mem c with prev := a } else { s with tail := a }

/-- Put a new last node at `a`. -/
def Store.append (s : Store α) (a : ℕ) (v : α) : Store α :=
  let s := s.write a ⟨v, 0, s.tail⟩
  let s :=
    if s.tail ≠ 0 then s.write s.tail { s.mem s.tail with next := a } else { s with head := a }
  { s with tail := a }

/-- Put a new node `b` behind `a`. -/
def Store.insertAfter (s : Store α) (a b : ℕ) (v : α) : Store α :=
  let next := (s.mem a).next
  let s := (s.write b ⟨v, next, a⟩).linkBack next b
  s.write a { s.mem a with next := b }

/-- Unlink the node behind `a`; its contents stay in memory. -/
def Store.removeAfter (s : Store α) (a : ℕ) : Store α :=
  let next := (s.mem (s.mem a).next).next
  (s.write a { s.mem a with next := next }).linkBack next a

/-- The address of the first node, or `d`. -/
def firstAddr (d : ℕ) : List (ℕ × α) → ℕ
  | [] => d
  | x :: _ => x.1

/-- The address of the last node, or `d`. -/
def lastAddr (d : ℕ) : List (ℕ × α) → ℕ
  | [] => d
  | x :: xs => lastAddr x.1 xs

/-- The nodes `xs` are linked both ways between the pointers `prev` and `next`. -/
def Segment (mem : ℕ → Node α) (prev : ℕ) (xs : List (ℕ × α)) (next : ℕ) : Prop :=
  match xs with
  | [] => True
  | x :: xs => mem x.1 = ⟨x.2, firstAddr next xs, prev⟩ ∧ Segment mem x.1 xs next

/-- The store holds exactly the list `xs`. -/
structure Store.Lists (s : Store α) (xs : List (ℕ × α)) : Prop where
  nodup : (xs.map Prod.fst).Nodup
  pos : 0 ∉ xs.map Prod.fst
  head : s.head = firstAddr 0 xs
  tail : s.tail = lastAddr 0 xs
  links : Segment s.mem 0 xs 0

section Segments
variable {mem mem' : ℕ → Node α} {xs ys : List (ℕ × α)} {p q d : ℕ}

@[simp] theorem firstAddr_nil : firstAddr d ([] : List (ℕ × α)) = d := rfl

@[simp] theorem firstAddr_cons (x : ℕ × α) : firstAddr d (x :: xs) = x.1 := rfl

@[simp] theorem lastAddr_nil : lastAddr d ([] : List (ℕ × α)) = d := rfl

@[simp] theorem lastAddr_cons (x : ℕ × α) : lastAddr d (x :: xs) = lastAddr x.1 xs := rfl

@[simp] theorem firstAddr_append : firstAddr d (xs ++ ys) = firstAddr (firstAddr d ys) xs := by
  cases xs <;> rfl

@[simp] theorem lastAddr_append : lastAddr d (xs ++ ys) = lastAddr (lastAddr d xs) ys := by
  induction xs generalizing d with
  | nil => rfl
  | cons x xs ih => exact ih

@[simp] theorem segment_nil : Segment mem p [] q := trivial

@[simp] theorem segment_cons (x : ℕ × α) :
    Segment mem p (x :: xs) q ↔ mem x.1 = ⟨x.2, firstAddr q xs, p⟩ ∧ Segment mem x.1 xs q :=
  Iff.rfl

@[simp] theorem segment_append : Segment mem p (xs ++ ys) q ↔
      Segment mem p xs (firstAddr q ys) ∧ Segment mem (lastAddr p xs) ys q := by
  induction xs generalizing p with
  | nil => simp
  | cons x xs ih => simp [ih, and_assoc]

theorem Segment.congr (h : Segment mem p xs q) (hmem : ∀ a ∈ xs.map Prod.fst, mem' a = mem a) :
    Segment mem' p xs q := by
  induction xs generalizing p with
  | nil => trivial
  | cons x xs ih =>
    refine ⟨(hmem x.1 (by simp)).trans h.1, ih h.2 fun a ha => hmem a ?_⟩
    exact mem_cons_of_mem _ ha

theorem Segment.update (h : Segment mem p xs q) {a : ℕ} (ha : a ∉ xs.map Prod.fst) (n : Node α) :
    Segment (update mem a n) p xs q :=
  h.congr fun b hb => by
    have hne : b ≠ a := fun heq => ha (heq ▸ hb)
    rw [update_of_ne hne]

theorem firstAddr_mem (hxs : xs ≠ []) : firstAddr d xs ∈ xs.map Prod.fst := by
  cases xs with
  | nil => exact absurd rfl hxs
  | cons x xs => simp

theorem firstAddr_eq_zero_iff (hpos : 0 ∉ xs.map Prod.fst) : firstAddr 0 xs = 0 ↔ xs = [] := by
  constructor
  · intro h
    by_contra hne
    exact hpos (h ▸ firstAddr_mem hne)
  · rintro rfl
    rfl

end Segments

section Operations
variable {s : Store α} {pre post : List (ℕ × α)} {a b : ℕ} {v w : α}

@[simp] theorem Store.write_head (n : Node α) : (s.write a n).head = s.head := rfl

@[simp] theorem Store.write_tail (n : Node α) : (s.write a n).tail = s.tail := rfl

theorem Store.write_mem_self (n : Node α) : (s.write a n).mem a = n := update_self _ _ _

theorem Store.write_mem_of_ne (hb : b ≠ a) (n : Node α) : (s.write a n).mem b = s.mem b :=
  update_of_ne hb _ _

theorem lists_split_iff : s.Lists (pre ++ (a, v) :: post) ↔
      ((pre ++ (a, v) :: post).map Prod.fst).Nodup ∧ 0 ∉ (pre ++ (a, v) :: post).map Prod.fst ∧
      s.head = firstAddr a pre ∧ s.tail = lastAddr a post ∧ Segment s.mem 0 pre a ∧
      s.mem a = ⟨v, firstAddr 0 post, lastAddr 0 pre⟩ ∧ Segment s.mem a post 0 := by
  constructor
  · intro h
    have hlinks := h.links
    simp only [segment_append, segment_cons, firstAddr_cons] at hlinks
    exact ⟨h.nodup, h.pos, by simpa using h.head, by simpa using h.tail, hlinks⟩
  · rintro ⟨hnodup, hpos, hhead, htail, hlinks⟩
    refine ⟨hnodup, hpos, by simpa using hhead, by simpa using htail, ?_⟩
    simpa only [segment_append, segment_cons, firstAddr_cons] using hlinks

section
variable (h : s.Lists (pre ++ (a, v) :: post))
include h

theorem Store.Lists.mem_eq : s.mem a = ⟨v, firstAddr 0 post, lastAddr 0 pre⟩ :=
  (lists_split_iff.1 h).2.2.2.2.2.1

theorem Store.Lists.notMem_pre : a ∉ pre.map Prod.fst := by
  have hnodup := h.nodup
  simp only [map_append, map_cons, nodup_append, mem_cons] at hnodup
  exact fun ha => hnodup.2.2 a ha a (Or.inl rfl) rfl

theorem Store.Lists.notMem_post : a ∉ post.map Prod.fst := by
  have hnodup := h.nodup
  simp only [map_append, map_cons, nodup_append, nodup_cons] at hnodup
  exact hnodup.2.1.1

theorem Store.Lists.disjoint {b : ℕ} (hb : b ∈ pre.map Prod.fst) : b ∉ post.map Prod.fst := by
  have hnodup := h.nodup
  simp only [map_append, map_cons, nodup_append, mem_cons] at hnodup
  exact fun hb' => hnodup.2.2 b hb b (Or.inr hb') rfl

theorem Store.Lists.post_nodup : (post.map Prod.fst).Nodup ∧ 0 ∉ post.map Prod.fst := by
  have hnodup := h.nodup
  have hpos := h.pos
  simp only [map_append, map_cons, nodup_append, nodup_cons] at hnodup
  simp only [map_append, map_cons, mem_append, mem_cons, not_or] at hpos
  exact ⟨hnodup.2.1.2, hpos.2.2⟩

end

@[simp] theorem Store.linkBack_head (c : ℕ) : (s.linkBack c a).head = s.head := by
  unfold linkBack
  split <;> rfl

theorem Store.linkBack_mem (hb : b ∉ post.map Prod.fst) :
    (s.linkBack (firstAddr 0 post) a).mem b = s.mem b := by
  cases post with
  | nil => rfl
  | cons x post =>
    have hne : b ≠ x.1 := fun h => hb (by simp [h])
    unfold linkBack
    split
    · exact write_mem_of_ne hne _
    · rfl

theorem Segment.linkBack {p : ℕ} (h : Segment s.mem p post 0) (hpos : 0 ∉ post.map Prod.fst)
    (hnodup : (post.map Prod.fst).Nodup) :
    Segment (s.linkBack (firstAddr 0 post) a).mem a post 0 := by
  cases post with
  | nil => trivial
  | cons x post =>
    have hne : x.1 ≠ 0 := fun h0 => hpos (by simp [h0])
    simp only [map_cons, nodup_cons] at hnodup
    simp only [Store.linkBack, firstAddr_cons, Ne, hne, not_false_eq_true, if_true, Store.write]
    refine ⟨?_, h.2.update hnodup.1 _⟩
    simp [h.1]

theorem Store.linkBack_tail {d : ℕ} (hpos : 0 ∉ post.map Prod.fst)
    (htail : s.tail = lastAddr d post) :
    (s.linkBack (firstAddr 0 post) a).tail = lastAddr a post := by
  cases post with
  | nil => rfl
  | cons x post =>
    have hne : x.1 ≠ 0 := fun h0 => hpos (by simp [h0])
    simp only [linkBack, firstAddr_cons, Ne, hne, not_false_eq_true, if_true]
    exact htail

theorem Store.Lists.modify (h : s.Lists (pre ++ (a, v) :: post)) (f : α → α) :
    (s.modify a f).Lists (pre ++ (a, f v) :: post) := by
  obtain ⟨hnodup, hpos, hhead, htail, hpre, hmem, hpost⟩ := lists_split_iff.1 h
  refine lists_split_iff.2 ⟨by simpa using hnodup, by simpa using hpos, hhead, htail,
    hpre.update h.notMem_pre _, ?_, hpost.update h.notMem_post _⟩
  simp only [Store.modify, write_mem_self, hmem]

theorem Store.Lists.append {xs : List (ℕ × α)} (h : s.Lists xs) (ha : a ∉ xs.map Prod.fst)
    (ha0 : a ≠ 0) : (s.append a v).Lists (xs ++ [(a, v)]) := by
  have hpos := h.pos
  have hnodup' : ((xs ++ [(a, v)]).map Prod.fst).Nodup := by
    rw [map_append, nodup_append_comm]
    exact nodup_cons.2 ⟨ha, h.nodup⟩
  have hpos' : 0 ∉ (xs ++ [(a, v)]).map Prod.fst := by
    simp only [map_append, mem_append, map_cons, map_nil, mem_singleton, not_or]
    exact ⟨hpos, fun h0 => ha0 h0.symm⟩
  rcases eq_nil_or_concat xs with rfl | ⟨ys, ⟨t, w⟩, rfl⟩
  · have htail : s.tail = 0 := h.tail
    refine ⟨hnodup', hpos', ?_, rfl, ?_⟩
    · simp [Store.append, htail]
    · simp [Store.append, htail, write]
  · rw [concat_eq_append] at *
    obtain ⟨-, -, hhead, htail, hpre, hmem, -⟩ := lists_split_iff.1 h
    have ht0 : t ≠ 0 := fun h0 => hpos (by simp [h0])
    have hta : t ≠ a := fun heq => ha (by simp [heq])
    have hays : a ∉ ys.map Prod.fst := fun hmem => ha (by simp_all)
    rw [lastAddr_nil] at htail
    rw [append_assoc, singleton_append] at hnodup' hpos' ⊢
    simp only [Store.append, write_tail, htail, Ne, ht0, not_false_eq_true, if_true]
    refine lists_split_iff.2 ⟨hnodup', hpos', hhead, rfl, ?_, ?_, ?_, trivial⟩
    · exact (hpre.update hays _).update h.notMem_pre _
    · simp [write_mem_self, write_mem_of_ne hta, hmem]
    · simp [write_mem_self, write_mem_of_ne hta.symm]

theorem Store.Lists.insertAfter (h : s.Lists (pre ++ (a, v) :: post))
    (hb : b ∉ (pre ++ (a, v) :: post).map Prod.fst) (hb0 : b ≠ 0) :
    (s.insertAfter a b w).Lists (pre ++ (a, v) :: (b, w) :: post) := by
  obtain ⟨hnodup, hpos, hhead, htail, hpre, hmem, hpost⟩ := lists_split_iff.1 h
  have hnodup' : ((pre ++ (a, v) :: (b, w) :: post).map Prod.fst).Nodup := by
    have hperm : ((pre ++ (a, v) :: (b, w) :: post).map Prod.fst).Perm
        (b :: (pre ++ (a, v) :: post).map Prod.fst) := by
      simpa using @perm_middle _ b (pre.map Prod.fst ++ [a]) (post.map Prod.fst)
    exact hperm.nodup_iff.2 (nodup_cons.2 ⟨hb, hnodup⟩)
  have hpos' : 0 ∉ (pre ++ (a, v) :: (b, w) :: post).map Prod.fst := by
    simp only [map_append, map_cons, mem_append, mem_cons, not_or] at hpos ⊢
    exact ⟨hpos.1, hpos.2.1, hb0.symm, hpos.2.2⟩
  simp only [map_append, map_cons, mem_append, mem_cons, not_or] at hb
  obtain ⟨hbpre, hba, hbpost⟩ := hb
  unfold Store.insertAfter
  simp only [hmem]
  have hmid : ((s.write b ⟨w, firstAddr 0 post, a⟩).linkBack (firstAddr 0 post) b).mem a =
      ⟨v, firstAddr 0 post, lastAddr 0 pre⟩ := by
    rw [linkBack_mem h.notMem_post, write_mem_of_ne (Ne.symm hba), hmem]
  refine lists_split_iff.2 ⟨hnodup', hpos', by simpa using hhead, ?_, ?_, ?_, ?_, ?_⟩
  · exact linkBack_tail h.post_nodup.2 htail
  · refine .update (hpre.congr fun c hc => ?_) h.notMem_pre _
    have hcb : c ≠ b := fun heq => hbpre (heq ▸ hc)
    rw [linkBack_mem (h.disjoint hc), write_mem_of_ne hcb]
  · rw [write_mem_self, hmid]
    rfl
  · rw [write_mem_of_ne hba, linkBack_mem hbpost, write_mem_self]
  · refine .update ?_ h.notMem_post _
    exact (hpost.update hbpost _).linkBack h.post_nodup.2 h.post_nodup.1

theorem Store.Lists.removeAfter (h : s.Lists (pre ++ (a, v) :: (b, w) :: post)) :
    (s.removeAfter a).Lists (pre ++ (a, v) :: post) ∧ (s.removeAfter a).mem b = s.mem b := by
  obtain ⟨hnodup, hpos, hhead, htail, hpre, hmem, hmemb, hpost⟩ := lists_split_iff.1 h
  have hab := h.notMem_post
  have hdisj (c : ℕ) (hc : c ∈ pre.map Prod.fst) := h.disjoint hc
  have hsub : List.Sublist ((pre ++ (a, v) :: post).map Prod.fst)
      ((pre ++ (a, v) :: (b, w) :: post).map Prod.fst) := by
    simp
  have h' : s.Lists ((pre ++ [(a, v)]) ++ (b, w) :: post) := by simpa using h
  simp only [map_cons, mem_cons, not_or] at hab hdisj
  have hne : b ≠ a := fun heq => hab.1 heq.symm
  simp only [Store.removeAfter, hmem, firstAddr_cons, hmemb]
  refine ⟨lists_split_iff.2 ⟨hnodup.sublist hsub, fun h0 => hpos (hsub.subset h0),
    by simpa using hhead, ?_, ?_, ?_, ?_⟩, ?_⟩
  · exact linkBack_tail h'.post_nodup.2 htail
  · refine hpre.congr fun c hc => ?_
    have hca : c ≠ a := fun heq => h.notMem_pre (heq ▸ hc)
    rw [linkBack_mem (hdisj c hc).2, write_mem_of_ne hca]
  · rw [linkBack_mem hab.2, write_mem_self]
  · exact (hpost.update hab.2 _).linkBack h'.post_nodup.2 h'.post_nodup.1
  · rw [linkBack_mem h'.notMem_post, write_mem_of_ne hne, hmemb]

theorem Store.linkBack_val (s : Store α) (a b c : ℕ) :
    ((s.linkBack c a).mem b).val = (s.mem b).val := by
  unfold linkBack
  split
  · by_cases hb : b = c
    · rw [hb, write_mem_self]
    · rw [write_mem_of_ne hb]
  · rfl

theorem Store.removeAfter_val (s : Store α) (a b : ℕ) :
    ((s.removeAfter a).mem b).val = (s.mem b).val := by
  unfold removeAfter
  rw [linkBack_val]
  by_cases hb : b = a
  · rw [hb, write_mem_self]
  · rw [write_mem_of_ne hb]

theorem Store.modify_val (s : Store α) (a b : ℕ) (f : α → α) :
    ((s.modify a f).mem b).val = if b = a then f (s.mem a).val else (s.mem b).val := by
  unfold modify
  by_cases hb : b = a
  · rw [if_pos hb, hb, write_mem_self]
  · rw [if_neg hb, write_mem_of_ne hb]

end Operations

end DoublyLinked
