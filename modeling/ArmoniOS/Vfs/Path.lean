import ArmoniOS.Fat32.Entry

/-! VFS paths: the canonical form of `vfs_normalize_path`, mount prefixes, and the part of a path
the FAT32 adapter hands to the volume. Strings are the bytes before the terminator. -/
namespace Vfs
open Fat32 List Option

def maxPath : ℕ := 64

/-- Step back over the last component and the separator before it; the first byte stays. -/
def popComponent (out : List UInt8) : List UInt8 :=
  let kept := (out.reverse.dropWhile (· ≠ charSlash)).reverse
  if 1 < kept.length then kept.dropLast else kept

/-- The component loop of `vfs_normalize_path` at position `input`, with `rest` the text from
there on and `out` the bytes stored so far. Every round moves `input` forward, so `maxPath`
rounds are enough. -/
def normalizeFrom : (fuel input : ℕ) → (rest out : List UInt8) → Option (List UInt8)
  | 0, _, _, _ => none
  | fuel + 1, input, rest, out =>
      let slashes := rest.takeWhile (· = charSlash)
      let text := rest.dropWhile (· = charSlash)
      let start := input + slashes.length
      if maxPath ≤ start then none
      else if text = [] then some out
      else
        let component := text.takeWhile (· ≠ charSlash)
        let after := text.dropWhile (· ≠ charSlash)
        let stop := start + component.length
        if maxPath ≤ stop then none
        else if component = [charDot] then normalizeFrom fuel stop after out
        else if component = [charDot, charDot] then
          if out.length = 1 then none
          else normalizeFrom fuel stop after (popComponent out)
        else
          let required := component.length + if 1 < out.length then 1 else 0
          if maxPath - 1 - required < out.length then none
          else normalizeFrom fuel stop after
            (out ++ (if 1 < out.length then [charSlash] else []) ++ component)

def vfsNormalizePath (path : List UInt8) : Option (List UInt8) :=
  match path with
  | [] => none
  | ch :: rest => if ch = charSlash then normalizeFrom maxPath 1 rest [charSlash] else none

def vfsPathIsMountChild (path mountPath : List UInt8) : Bool :=
  if path.head? ≠ some charSlash ∨ mountPath.head? ≠ some charSlash then false
  else if mountPath = [charSlash] then decide (1 < path.length)
  else decide (mountPath <+: path ∧ (path.drop mountPath.length).head? = some charSlash ∧
    1 < (path.drop mountPath.length).length)

def vfsStripPrefix (path pre : List UInt8) : Option (List UInt8) :=
  if pre = [] then none
  else if pre <+: path then
    if path.drop pre.length = [] then none else some (path.drop pre.length)
  else none

/-- `FAT32_VFS_ROOT_PATH`. -/
def fatRootPath : List UInt8 := [47, 102, 97, 116]

def fat32VfsRelativePath (path : List UInt8) : Option (List UInt8) :=
  if path = fatRootPath then some []
  else (vfsStripPrefix path fatRootPath).bind fun suffix =>
    if suffix.head? ≠ some charSlash ∨ suffix.length < 2 then none
    else if maxPath ≤ suffix.tail.length then none
    else some suffix.tail

def fat32VfsRootName (path : List UInt8) : Option (List UInt8) :=
  (fat32VfsRelativePath path).bind fun relative =>
    if relative = [] ∨ charSlash ∈ relative ∨ maxPath ≤ relative.length then none
    else some relative

structure IsComponent (c : List UInt8) : Prop where
  nonempty : c ≠ []
  noSlash : charSlash ∉ c
  notDot : c ≠ [charDot]
  notDotDot : c ≠ [charDot, charDot]

def render (cs : List (List UInt8)) : List UInt8 :=
  if cs = [] then [charSlash] else cs.flatMap (charSlash :: ·)

theorem render_cons (c : List UInt8) (cs : List (List UInt8)) :
    render (c :: cs) = charSlash :: (c ++ cs.flatMap (charSlash :: ·)) := by
  simp [render]

theorem one_lt_render {c : List UInt8} {cs : List (List UInt8)} (hc : c ≠ []) :
    1 < (render (c :: cs)).length := by
  have := length_pos_of_ne_nil hc
  rw [render_cons, length_cons, length_append]
  omega

variable {cs : List (List UInt8)} {c : List UInt8}

theorem render_append (hne : cs ≠ []) (cs' : List (List UInt8)) :
    render (cs ++ cs') = render cs ++ cs'.flatMap (charSlash :: ·) := by
  simp [render, hne]

theorem render_snoc (hcs : ∀ c ∈ cs, IsComponent c) (c : List UInt8) : render (cs ++ [c]) =
      render cs ++ (if 1 < (render cs).length then [charSlash] else []) ++ c := by
  cases cs with
  | nil => simp [render]
  | cons b cs =>
    rw [if_pos (one_lt_render (hcs b (by simp)).nonempty)]
    simp [render]

theorem popComponent_render (hcs : ∀ c ∈ cs, IsComponent c) (hc : charSlash ∉ c) :
    popComponent (render (cs ++ [c])) = render cs := by
  have hdrop : ∀ out : List UInt8,
      ((out ++ charSlash :: c).reverse.dropWhile (· ≠ charSlash)).reverse = out ++ [charSlash] := by
    intro out
    have hall : ∀ x ∈ c.reverse, decide (x ≠ charSlash) = true := by
      intro x hx
      simpa using fun he : x = charSlash => hc (he ▸ mem_reverse.mp hx)
    rw [reverse_append, reverse_cons, append_assoc, dropWhile_append_of_pos hall]
    simp
  unfold popComponent
  cases cs with
  | nil =>
    have heq : render ([] ++ [c]) = [] ++ charSlash :: c := by simp [render]
    rw [heq, hdrop]
    rfl
  | cons b cs =>
    have heq : render (b :: cs ++ [c]) = render (b :: cs) ++ charSlash :: c := by simp [render]
    have hlen : 1 < (render (b :: cs)).length := one_lt_render (hcs b (by simp)).nonempty
    rw [heq, hdrop, if_pos (by simp; omega), dropLast_concat]

/-- A canonical path: the text of proper components, within the path bound. -/
def Canonical (path : List UInt8) : Prop :=
  ∃ cs, (∀ c ∈ cs, IsComponent c) ∧ path = render cs ∧ path.length < maxPath

section Adapter
variable {path relative name : List UInt8}

theorem fat32VfsRelativePath_some (h : fat32VfsRelativePath path = some relative)
    (hne : relative ≠ []) : path = fatRootPath ++ charSlash :: relative := by
  rw [fat32VfsRelativePath] at h
  split at h
  next => exact absurd (some.inj h).symm hne
  next =>
    obtain ⟨suffix, hstrip, h⟩ := bind_eq_some_iff.1 h
    split at h
    next => simp at h
    next hs =>
      rw [not_or, not_not] at hs
      split at h
      next => simp at h
      next =>
        obtain rfl := some.inj h
        rw [vfsStripPrefix, if_neg (by decide)] at hstrip
        split at hstrip
        next hpre =>
          split at hstrip
          next => simp at hstrip
          next =>
            obtain rfl := some.inj hstrip
            rw [cons_head?_tail hs.1]
            exact (prefix_iff_eq_append.1 hpre).symm
        next => simp at hstrip

theorem fat32VfsRootName_some (h : fat32VfsRootName path = some name) :
    fat32VfsRelativePath path = some name ∧ name ≠ [] ∧ charSlash ∉ name := by
  obtain ⟨relative, hrel, h⟩ := bind_eq_some_iff.1 h
  split at h
  next => simp at h
  next hc =>
    obtain rfl := some.inj h
    simp only [not_or] at hc
    exact ⟨hrel, hc.1, hc.2.1⟩

theorem vfsPathIsMountChild_fat (hne : relative ≠ []) :
    vfsPathIsMountChild (fatRootPath ++ charSlash :: relative) fatRootPath = true := by
  have hlen := length_pos_iff.2 hne
  rw [vfsPathIsMountChild, if_neg (by simp [fatRootPath, charSlash]), if_neg (by decide),
    decide_eq_true_eq, drop_left]
  exact ⟨prefix_append _ _, rfl, by simp; omega⟩

end Adapter
end Vfs
