import ArmoniOS.Vfs.Path

/-! What `vfs_normalize_path` computes: the text of the components a path resolves to. The loop
works on one output buffer and finds the component to remove by scanning backwards; the reference
below works on the list of components. -/
namespace Vfs
open Fat32 List

section Reference

/-- One component: empty ones and `.` are dropped, `..` removes the last one kept. -/
def resolveStep (kept : List (List UInt8)) (c : List UInt8) : Option (List (List UInt8)) :=
  if c = [] ∨ c = [charDot] then some kept
  else if c = [charDot, charDot] then
    if kept = [] then none else some kept.dropLast
  else some (kept ++ [c])

def resolveFrom (kept : List (List UInt8)) : List (List UInt8) → Option (List (List UInt8))
  | [] => some kept
  | c :: cs => (resolveStep kept c).bind fun kept => resolveFrom kept cs

/-- The components a path resolves to, or none when it climbs above the root. -/
def resolve (path : List UInt8) : Option (List (List UInt8)) :=
  resolveFrom [] (path.splitOn charSlash)

/-- Somewhere a `..` finds nothing left to remove. -/
def Escapes (path : List UInt8) : Prop :=
  ∃ before after, path.splitOn charSlash = before ++ [charDot, charDot] :: after ∧
    resolveFrom [] before = some []

end Reference

variable {path : List UInt8}

section Resolution
variable {kept : List (List UInt8)} {c text after slashes : List UInt8}

theorem resolveStep_component (hc : IsComponent c) : resolveStep kept c = some (kept ++ [c]) := by
  simp only [resolveStep, hc.nonempty, hc.notDot, hc.notDotDot, or_self, ↓reduceIte]

theorem resolveFrom_append (cs cs' : List (List UInt8)) :
    resolveFrom kept (cs ++ cs') = (resolveFrom kept cs).bind fun kept => resolveFrom kept cs' := by
  induction cs generalizing kept with
  | nil => rfl
  | cons c cs ih =>
    simp only [cons_append, resolveFrom, ih]
    cases resolveStep kept c <;> rfl

theorem resolveFrom_eq_none (cs : List (List UInt8)) : resolveFrom kept cs = none ↔
    ∃ before after, cs = before ++ [charDot, charDot] :: after ∧
      resolveFrom kept before = some [] := by
  constructor
  · intro h
    induction cs generalizing kept with
    | nil => simp [resolveFrom] at h
    | cons c cs ih =>
      cases hstep : resolveStep kept c with
      | none =>
        have hc : c = [charDot, charDot] ∧ kept = [] := by
          unfold resolveStep at hstep
          split_ifs at hstep with _ hdots hnil
          exact ⟨hdots, hnil⟩
        exact ⟨[], cs, by simp [hc.1], by simp [resolveFrom, hc.2]⟩
      | some kept' =>
        simp only [resolveFrom, hstep, Option.bind_some] at h
        obtain ⟨before, after, rfl, hbefore⟩ := ih h
        exact ⟨c :: before, after, rfl, by simpa only [resolveFrom, hstep, Option.bind_some]⟩
  · rintro ⟨before, after, rfl, hbefore⟩
    simp only [resolveFrom_append, hbefore, Option.bind_some]
    rfl

theorem resolveFrom_components {cs kept' : List (List UInt8)} (hcs : ∀ c ∈ cs, charSlash ∉ c)
    (hkept : ∀ c ∈ kept, IsComponent c) (h : resolveFrom kept cs = some kept') :
    ∀ c ∈ kept', IsComponent c := by
  induction cs generalizing kept with
  | nil =>
    obtain rfl := Option.some.inj h
    exact hkept
  | cons c cs ih =>
    obtain ⟨next, hstep, hrest⟩ := Option.bind_eq_some_iff.1 h
    apply ih (fun b hb => hcs b (mem_cons_of_mem _ hb)) _ hrest
    unfold resolveStep at hstep
    split_ifs at hstep with hempty hdots hnil
    · obtain rfl := Option.some.inj hstep
      exact hkept
    · obtain rfl := Option.some.inj hstep
      intro b hb
      exact hkept b (mem_of_mem_dropLast hb)
    · obtain rfl := Option.some.inj hstep
      intro b hb
      rcases mem_append.1 hb with hb | hb
      · exact hkept b hb
      · obtain rfl := mem_singleton.1 hb
        exact ⟨fun he => hempty (.inl he), hcs b mem_cons_self, fun he => hempty (.inr he), hdots⟩

theorem resolveFrom_slashes (hslashes : ∀ b ∈ slashes, b = charSlash) :
    resolveFrom kept ((slashes ++ text).splitOn charSlash) =
      resolveFrom kept (text.splitOn charSlash) := by
  induction slashes with
  | nil => rfl
  | cons b slashes ih =>
    obtain rfl := hslashes b mem_cons_self
    have hsplit := splitOn_append_cons_self_of_not_mem
      (show charSlash ∉ ([] : List UInt8) from not_mem_nil) (slashes ++ text)
    exact ih fun b hb => hslashes b (mem_cons_of_mem _ hb)

theorem resolveFrom_first (hc : charSlash ∉ c) (hafter : after = [] ∨ after.head? = some charSlash) :
    resolveFrom kept ((c ++ after).splitOn charSlash) =
      (resolveStep kept c).bind fun kept => resolveFrom kept (after.splitOn charSlash) := by
  cases after with
  | nil =>
    simp only [append_nil, splitOn_eq_singleton hc, splitOn_nil, resolveFrom]
    rfl
  | cons b after =>
    obtain rfl : b = charSlash := by simpa using hafter
    have hsplit := splitOn_append_cons_self_of_not_mem hc after
    have hnext (kept : List (List UInt8)) :
        resolveFrom kept ((charSlash :: after).splitOn charSlash) =
          resolveFrom kept (after.splitOn charSlash) :=
      @resolveFrom_slashes kept after [charSlash] (by simp)
    simp only [hsplit, resolveFrom, hnext]

theorem splitOn_noSlash (hc : c ∈ text.splitOn charSlash) : charSlash ∉ c := by
  induction text generalizing c with
  | nil =>
    obtain rfl : c = [] := by simpa using hc
    exact not_mem_nil
  | cons b text ih =>
    rw [splitOn_cons_eq_if_modifyHead] at hc
    split_ifs at hc with hb
    · rcases mem_cons.1 hc with rfl | hc
      · exact not_mem_nil
      · exact ih hc
    · obtain ⟨first, rest, hsplit⟩ := exists_cons_of_ne_nil (splitOn_ne_nil charSlash text)
      simp only [hsplit, modifyHead_cons, mem_cons] at hc
      rcases hc with rfl | hc
      · have hfirst : charSlash ∉ first := ih (by simp [hsplit])
        intro hmem
        rcases mem_cons.1 hmem with rfl | hmem
        · simp at hb
        · exact hfirst hmem
      · exact ih (by simp [hsplit, hc])

theorem resolve_components (h : resolve path = some kept) : ∀ c ∈ kept, IsComponent c :=
  resolveFrom_components (fun _ hc => splitOn_noSlash hc) (by simp) h

section
variable {cs : List (List UInt8)} (hcs : ∀ c ∈ cs, IsComponent c)
include hcs

theorem resolveFrom_flatMap :
    resolveFrom kept ((cs.flatMap (charSlash :: ·)).splitOn charSlash) = some (kept ++ cs) := by
  induction cs generalizing kept with
  | nil => simp [resolveFrom, resolveStep]
  | cons c cs ih =>
    have hc := hcs c mem_cons_self
    have hslash := @resolveFrom_slashes kept (c ++ cs.flatMap (charSlash :: ·)) [charSlash] (by simp)
    change resolveFrom kept (([charSlash] ++ (c ++ cs.flatMap (charSlash :: ·))).splitOn charSlash) = _
    rw [hslash, resolveFrom_first hc.noSlash (by cases cs <;> simp), resolveStep_component hc,
      Option.bind_some, ih fun b hb => hcs b (mem_cons_of_mem _ hb), append_assoc,
      singleton_append]

theorem resolve_render : resolve (render cs) = some cs := by
  cases cs with
  | nil => decide
  | cons c cs => simpa [resolve, render] using @resolveFrom_flatMap [] _ hcs

end

theorem render_eq_intercalate (cs : List (List UInt8)) :
    render cs = charSlash :: [charSlash].intercalate cs := by
  induction cs with
  | nil => rfl
  | cons c cs ih =>
    cases cs with
    | nil => simp [render, intercalate]
    | cons b cs =>
      simp only [render_cons] at ih ⊢
      simp [intercalate, intersperse] at ih ⊢
      exact ih

end Resolution

variable {canonical : List UInt8}

section Loop
variable {kept : List (List UInt8)} {fuel input : ℕ} {rest : List UInt8}

theorem render_length_eq_one (hkept : ∀ c ∈ kept, IsComponent c) :
    (render kept).length = 1 ↔ kept = [] := by
  constructor
  · intro h
    cases kept with
    | nil => rfl
    | cons c cs =>
      have := @one_lt_render c cs (hkept c mem_cons_self).nonempty
      omega
  · rintro rfl
    rfl

/-- The loop with the text of the kept components in its buffer. `rest` is what is left of the
input; it starts at a separator unless nothing was kept. -/
theorem normalizeFrom_eq (hkept : ∀ c ∈ kept, IsComponent c) (hfuel : maxPath ≤ fuel + input)
    (hlen : (render kept).length ≤ input)
    (hrest : rest = [] ∨ rest.head? = some charSlash ∨ kept = []) :
    (normalizeFrom fuel input rest (render kept) =
      if input + rest.length < maxPath then
        (resolveFrom kept (rest.splitOn charSlash)).map render
      else none) ∧
    ∀ out, normalizeFrom fuel input rest (render kept) = some out → out.length < maxPath := by
  induction fuel generalizing input rest kept with
  | zero =>
    rw [if_neg (by omega)]
    exact ⟨rfl, by simp [normalizeFrom]⟩
  | succ fuel ih =>
    have hsplit := takeWhile_append_dropWhile (p := fun b : UInt8 => decide (b = charSlash))
      (l := rest)
    have hslashes : ∀ b ∈ rest.takeWhile (· = charSlash), b = charSlash := by
      intro b hb
      simpa using mem_takeWhile_imp hb
    have hhead : (rest.dropWhile (· = charSlash)).head? ≠ some charSlash := by
      intro hmem
      have := head?_dropWhile_not (p := fun b : UInt8 => decide (b = charSlash)) rest
      rw [hmem] at this
      simp at this
    unfold normalizeFrom
    dsimp only
    generalize rest.takeWhile (· = charSlash) = slashes at hsplit hslashes ⊢
    generalize rest.dropWhile (· = charSlash) = text at hsplit hhead ⊢
    subst hsplit
    rw [resolveFrom_slashes hslashes, length_append]
    by_cases hstart : maxPath ≤ input + slashes.length
    · rw [if_pos hstart, if_neg (by omega)]
      simp
    by_cases htext : text = []
    · subst htext
      rw [if_neg hstart, if_pos rfl, if_pos (by simp; omega)]
      refine ⟨rfl, fun out hout => ?_⟩
      rw [← Option.some.inj hout]
      omega
    have hword := takeWhile_append_dropWhile (p := fun b : UInt8 => decide (b ≠ charSlash))
      (l := text)
    have hnext : text.dropWhile (· ≠ charSlash) = [] ∨
        (text.dropWhile (· ≠ charSlash)).head? = some charSlash := by
      have hslash := head?_dropWhile_not (p := fun b : UInt8 => decide (b ≠ charSlash)) text
      cases hdrop : text.dropWhile (· ≠ charSlash) with
      | nil => exact .inl rfl
      | cons b after =>
        rw [hdrop] at hslash
        simpa using hslash
    have hne : text.takeWhile (· ≠ charSlash) ≠ [] := by
      obtain ⟨ch, text, rfl⟩ := exists_cons_of_ne_nil htext
      have hch : ch ≠ charSlash := by simpa using hhead
      simp [hch]
    have hnoSlash : charSlash ∉ text.takeWhile (· ≠ charSlash) := fun hmem => by
      simpa using mem_takeWhile_imp hmem
    rw [if_neg hstart, if_neg htext]
    generalize text.takeWhile (· ≠ charSlash) = c at hword hne hnoSlash ⊢
    generalize text.dropWhile (· ≠ charSlash) = after at hword hnext ⊢
    subst hword
    rw [resolveFrom_first hnoSlash hnext, length_append]
    by_cases hstop : maxPath ≤ input + slashes.length + c.length
    · rw [if_pos hstop, if_neg (by omega)]
      simp
    rw [if_neg hstop]
    -- a component that leaves `kept'` behind
    have hround : ∀ kept', resolveStep kept c = some kept' → (∀ b ∈ kept', IsComponent b) →
        (render kept').length ≤ input + slashes.length + c.length →
        (normalizeFrom fuel (input + slashes.length + c.length) after (render kept') =
          if input + (slashes.length + (c.length + after.length)) < maxPath then
            ((resolveStep kept c).bind fun kept =>
              resolveFrom kept (after.splitOn charSlash)).map render
          else none) ∧
        ∀ out, normalizeFrom fuel (input + slashes.length + c.length) after (render kept') =
          some out → out.length < maxPath := by
      intro kept' hstep hkept' hlen'
      have hpos := length_pos_of_ne_nil hne
      obtain ⟨hloop, hshort⟩ := ih hkept' (show maxPath ≤ fuel + _ by omega) hlen'
        (show after = [] ∨ _ by tauto)
      refine ⟨?_, hshort⟩
      rw [hloop, hstep, Option.bind_some]
      congr 1
      simp only [eq_iff_iff]
      omega
    by_cases hdot : c = [charDot]
    · rw [if_pos hdot]
      exact hround kept (by simp [resolveStep, hdot]) hkept (by omega)
    rw [if_neg hdot]
    by_cases hdots : c = [charDot, charDot]
    · rw [if_pos hdots]
      by_cases hnil : kept = []
      · rw [if_pos ((render_length_eq_one hkept).2 hnil)]
        simp [resolveStep, hdots, hnil]
      rw [if_neg (mt (render_length_eq_one hkept).1 hnil)]
      obtain ⟨init, last, rfl⟩ := eq_nil_or_concat kept |>.resolve_left hnil
      rw [concat_eq_append] at hkept hlen hround ⊢
      have hinit : ∀ b ∈ init, IsComponent b := fun b hb => hkept b (by simp [hb])
      rw [popComponent_render hinit (hkept last (by simp)).noSlash]
      apply hround init (by simp [resolveStep, hdots]) hinit
      rw [render_snoc hinit] at hlen
      simp only [length_append] at hlen
      omega
    rw [if_neg hdots]
    have hc : IsComponent c := ⟨hne, hnoSlash, hdot, hdots⟩
    -- a second component is preceded by a separator, so the output is never longer than the input
    have hroom : (render kept).length + (c.length + if 1 < (render kept).length then 1 else 0) ≤
        input + slashes.length + c.length := by
      split_ifs with hone
      · have hne : kept ≠ [] := by
          rintro rfl
          exact absurd hone (by decide)
        have hslash : slashes ≠ [] := by
          rintro rfl
          rcases hrest with hnil | hslash | hnil
          · exact htext hnil
          · exact hhead hslash
          · exact hne hnil
        have := length_pos_of_ne_nil hslash
        omega
      · omega
    rw [if_neg (by unfold maxPath at hstop ⊢; omega), ← render_snoc hkept]
    apply hround _ (resolveStep_component hc)
    · intro b hb
      rcases mem_append.1 hb with hb | hb
      · exact hkept b hb
      · exact mem_singleton.1 hb ▸ hc
    · rw [render_snoc hkept]
      simp only [length_append]
      split_ifs at hroom ⊢ <;> simp <;> omega

theorem vfsNormalizePath_short
    (h : vfsNormalizePath path = some canonical) : canonical.length < maxPath := by
  cases path with
  | nil => simp [vfsNormalizePath] at h
  | cons ch rest =>
    rw [vfsNormalizePath] at h
    split_ifs at h
    exact (@normalizeFrom_eq [] maxPath 1 rest (by simp) (by omega) (by decide) (by simp)).2 _ h

theorem vfsNormalizePath_eq (path : List UInt8) : vfsNormalizePath path =
    if path.head? = some charSlash ∧ path.length < maxPath then (resolve path).map render
    else none := by
  cases path with
  | nil => simp [vfsNormalizePath]
  | cons b rest =>
    by_cases hb : b = charSlash
    · subst hb
      have hslash := @resolveFrom_slashes [] rest [charSlash] (by simp)
      have hloop := @normalizeFrom_eq [] maxPath 1 rest (by simp) (by omega) (by decide) (by simp)
      have hresolve := hslash
      simp only [vfsNormalizePath, ↓reduceIte, head?_cons, true_and, length_cons]
      refine Eq.trans hloop.1 ?_
      congr 1
      simp only [eq_iff_iff]
      omega
    · simp [vfsNormalizePath, hb]

theorem normalizePath_of_canonical (h : Canonical path) : vfsNormalizePath path = some path := by
  obtain ⟨cs, hcs, rfl, hlen⟩ := h
  have hhead : (render cs).head? = some charSlash := by cases cs <;> simp [render]
  rw [vfsNormalizePath_eq, if_pos ⟨hhead, hlen⟩, resolve_render hcs]
  rfl

theorem vfsNormalizePath_some (h : vfsNormalizePath path = some canonical) :
    ∃ kept, resolve path = some kept ∧ canonical = render kept := by
  rw [vfsNormalizePath_eq] at h
  split_ifs at h with hc
  obtain ⟨kept, hkept, hrender⟩ := Option.map_eq_some_iff.1 h
  exact ⟨kept, hkept, hrender.symm⟩

theorem canonical_of_normalizePath
    (h : vfsNormalizePath path = some canonical) : Canonical canonical := by
  obtain ⟨kept, hkept, hrender⟩ := vfsNormalizePath_some h
  exact ⟨kept, resolve_components hkept, hrender, vfsNormalizePath_short h⟩

end Loop

/-- `vfs_normalize_path` fails exactly on a path that is not absolute, does not fit the buffer or
climbs above the root; otherwise it returns `/` and the components the path resolves to, joined by
single separators. The result is a fixpoint, and two accepted paths have one result exactly when
they resolve to the same components. -/
theorem normalizePath_resolves (path : List UInt8) : (vfsNormalizePath path = none ↔
      path.head? ≠ some charSlash ∨ maxPath ≤ path.length ∨ Escapes path) ∧
    (∀ result, vfsNormalizePath path = some result →
      (∃ kept, resolve path = some kept ∧ result = charSlash :: [charSlash].intercalate kept) ∧
      vfsNormalizePath result = some result) ∧
    ∀ other result result', vfsNormalizePath path = some result →
      vfsNormalizePath other = some result' →
      (result = result' ↔ resolve path = resolve other) := by
  refine ⟨?_, ?_, ?_⟩
  · rw [vfsNormalizePath_eq, ← show resolve path = none ↔ Escapes path from resolveFrom_eq_none _]
    split_ifs with hc
    · simp [hc.1, hc.2]
    · simp only [true_iff]
      by_cases hhead : path.head? = some charSlash
      · exact .inr (.inl (by simpa [hhead] using hc))
      · exact .inl hhead
  · intro result h
    obtain ⟨kept, hkept, hrender⟩ := vfsNormalizePath_some h
    exact ⟨⟨kept, hkept, hrender.trans (render_eq_intercalate kept)⟩,
      normalizePath_of_canonical (canonical_of_normalizePath h)⟩
  · intro other result result' h h'
    obtain ⟨kept, hkept, rfl⟩ := vfsNormalizePath_some h
    obtain ⟨kept', hkept', rfl⟩ := vfsNormalizePath_some h'
    constructor
    · intro heq
      have hread := resolve_render (resolve_components hkept)
      rw [heq, resolve_render (resolve_components hkept')] at hread
      rw [hkept, hkept', hread]
    · intro heq
      obtain rfl := Option.some.inj (hkept.symm.trans (heq.trans hkept'))
      rfl

/-- `/a//./b/../c/` and `/a/x/../c` are both `/a/c`. -/
theorem normalizePath_resolves_twice :
    vfsNormalizePath [47, 97, 47, 47, 46, 47, 98, 47, 46, 46, 47, 99, 47] = some [47, 97, 47, 99] ∧
    vfsNormalizePath [47, 97, 47, 120, 47, 46, 46, 47, 99] = some [47, 97, 47, 99] ∧
    resolve [47, 97, 47, 47, 46, 47, 98, 47, 46, 46, 47, 99, 47] =
      resolve [47, 97, 47, 120, 47, 46, 46, 47, 99] := by
  have h : vfsNormalizePath [47, 97, 47, 47, 46, 47, 98, 47, 46, 46, 47, 99, 47] =
      some [47, 97, 47, 99] := by decide +kernel
  have h' : vfsNormalizePath [47, 97, 47, 120, 47, 46, 46, 47, 99] = some [47, 97, 47, 99] := by
    decide +kernel
  exact ⟨h, h', ((normalizePath_resolves _).2.2 _ _ _ h h').1 rfl⟩
end Vfs
