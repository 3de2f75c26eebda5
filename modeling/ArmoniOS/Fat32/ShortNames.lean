import ArmoniOS.Fat32.Entry

/-! The two encoders of 8.3 names, the check of the file manager in `programs/apps/files.c`, and the
printed form of an encoded name. -/
namespace Fat32

open List Option

/-- `is_bad_83_char`. -/
def isBad83Char (c : UInt8) : Prop := c ≤ charSpace ∨ c ∈ charSlash :: charBackslash :: forbiddenChars
deriving Decidable

def valid83Loop : (name : List UInt8) → (base ext : ℕ) → (inExt : Bool) → Bool
  | [], base, ext, inExt => 0 < base ∧ (inExt = false ∨ 0 < ext)
  | c :: rest, base, ext, inExt =>
      if c = charDot then
        if inExt = true ∨ base = 0 then false else valid83Loop rest base ext true
      else if isBad83Char c then false
      else if inExt = false then
        if 8 < base + 1 then false else valid83Loop rest (base + 1) ext inExt
      else if 3 < ext + 1 then false
      else valid83Loop rest base (ext + 1) inExt

def valid83Name (name : List UInt8) : Bool := if name = [] then false else valid83Loop name 0 0 false

/-- Upper case concerns letters only, so no test of the encoders depends on it. -/
theorem asciiUpper_spec (c : UInt8) : asciiUpper (asciiUpper c) = asciiUpper c ∧
    (asciiUpper c = charDot ↔ c = charDot) ∧ (asciiUpper c = charSlash ↔ c = charSlash) ∧
    (isBad83Char (asciiUpper c) ↔ isBad83Char c) := by
  have hall : ∀ n : Fin 256, let c := UInt8.ofNat n
      asciiUpper (asciiUpper c) = asciiUpper c ∧ (asciiUpper c = charDot ↔ c = charDot) ∧
      (asciiUpper c = charSlash ↔ c = charSlash) ∧
      (isBad83Char (asciiUpper c) ↔ isBad83Char c) := by decide +kernel
  simpa using hall ⟨c.toNat, c.toNat_lt⟩

section Loop
variable {separators forbidden name base ext out : List UInt8} {inExt : Bool}

theorem shortNameLoop_upper : shortNameLoop separators forbidden (name.map asciiUpper) base ext inExt =
    shortNameLoop separators forbidden name base ext inExt := by
  induction name generalizing base ext inExt with
  | nil => rfl
  | cons c rest ih => simp only [map_cons, shortNameLoop, (asciiUpper_spec c).1, ih]

theorem shortNameLoop_backslash :
    shortNameLoop [charSlash] (charBackslash :: forbiddenChars) name base ext inExt =
      shortNameLoop [charSlash, charBackslash] forbiddenChars name base ext inExt := by
  induction name generalizing base ext inExt with
  | nil => rfl
  | cons ch rest ih =>
    simp only [shortNameLoop, ih]
    by_cases hb : asciiUpper ch = charBackslash
    · rw [hb]
      simp [charSlash, charBackslash, charDot]
    · simp [hb]

theorem valid83Loop_eq : valid83Loop name base.length ext.length inExt =
    (shortNameLoop [charSlash, charBackslash] forbiddenChars name base ext inExt).isSome := by
  induction name generalizing base ext inExt with
  | nil =>
    rw [shortNameLoop, valid83Loop, Bool.eq_iff_iff]
    cases base <;> cases ext <;> cases inExt <;> simp
  | cons c rest ih =>
    obtain ⟨-, hdot, -, hbad⟩ := asciiUpper_spec c
    simp only [valid83Loop, shortNameLoop]
    by_cases h1 : c = charDot
    · have hsep : charDot ∉ [charSlash, charBackslash] := by decide
      simp only [hdot.2 h1, if_pos h1, if_neg hsep, if_true, length_eq_zero_iff]
      split_ifs
      · rfl
      · exact ih
    by_cases h2 : isBad83Char c
    · have hreject := hbad.2 h2
      simp only [isBad83Char, mem_cons] at hreject
      simp only [if_neg h1, if_pos h2, if_neg (mt hdot.1 h1), mem_cons, not_mem_nil, or_false]
      split_ifs with h3 h4
      · rfl
      · rfl
      all_goals tauto
    · have hpass := mt hbad.1 h2
      simp only [isBad83Char, mem_cons, not_or] at hpass
      have hsep : asciiUpper c ∉ [charSlash, charBackslash] := by simp [hpass]
      have hforb : ¬ (asciiUpper c ≤ charSpace ∨ asciiUpper c ∈ forbiddenChars) := by tauto
      simp only [if_neg h1, if_neg h2, if_neg hsep, if_neg (mt hdot.1 h1), if_neg hforb,
        Nat.lt_add_one_iff]
      have hbase := @ih (base ++ [asciiUpper c]) ext inExt
      have hext := @ih base (ext ++ [asciiUpper c]) inExt
      rw [length_append, length_singleton] at hbase hext
      split_ifs
      · rfl
      · exact hbase
      · rfl
      · exact hext

theorem shortNameLoop_some (hb : base.length ≤ 8) (he : ext.length ≤ 3)
    (hprint : ∀ c ∈ base ++ ext, charSpace < c ∧ c ≠ charDot) (hx : inExt = false → ext = [])
    (h : shortNameLoop separators forbidden name base ext inExt = some out) :
    ∃ base' ext', out = padName base' ext' ∧ base' ≠ [] ∧ base'.length ≤ 8 ∧ ext'.length ≤ 3 ∧
      (∀ c ∈ base' ++ ext', charSpace < c ∧ c ≠ charDot) ∧
      (base' ++ if ext' = [] then [] else charDot :: ext') =
        base ++ (if inExt then charDot :: ext else []) ++ name.map asciiUpper := by
  induction name generalizing base ext inExt with
  | nil =>
    simp only [shortNameLoop] at h
    split_ifs at h with h1
    rw [not_or, not_and] at h1
    refine ⟨base, ext, (some.inj h).symm, h1.1, hb, he, hprint, ?_⟩
    cases inExt with
    | false => simp [hx rfl]
    | true => simp [h1.2 rfl]
  | cons ch rest ih =>
    simp only [shortNameLoop] at h
    split_ifs at h with h1 h2 h3 h4 h5 h6 h7
    · have hinExt : inExt = false := by simpa using fun hin => h3 (Or.inl hin)
      obtain ⟨base', ext', hparts⟩ := ih hb he hprint (by simp) h
      exact ⟨base', ext', by simpa [hinExt, hx hinExt, h2] using hparts⟩
    all_goals
      have hch : charSpace < asciiUpper ch ∧ asciiUpper ch ≠ charDot :=
        ⟨UInt8.not_le.mp fun hle => h4 (Or.inl hle), h2⟩
    · have hprint' : ∀ c ∈ base ++ [asciiUpper ch] ++ ext, charSpace < c ∧ c ≠ charDot := by
        intro c hc
        simp only [mem_append, mem_singleton] at hc
        rcases hc with (hc | rfl) | hc
        · exact hprint c (by simp [hc])
        · exact hch
        · exact hprint c (by simp [hc])
      obtain ⟨base', ext', hparts⟩ := ih (by simp; omega) he hprint' hx h
      exact ⟨base', ext', by simpa [h5] using hparts⟩
    · have hprint' : ∀ c ∈ base ++ (ext ++ [asciiUpper ch]), charSpace < c ∧ c ≠ charDot := by
        rw [← append_assoc]
        intro c hc
        rcases mem_append.1 hc with hc | hc
        · exact hprint c hc
        · rwa [mem_singleton.1 hc]
      obtain ⟨base', ext', hparts⟩ := ih hb (by simp; omega) hprint' (fun hf => absurd hf h5) h
      exact ⟨base', ext', by simpa [h5] using hparts⟩

end Loop

section Names
variable {name other out : List UInt8}

theorem rdropWhile_pad {l : List UInt8} (h : ∀ c ∈ l, charSpace < c) (n : ℕ) :
    (l ++ replicate n charSpace).rdropWhile (· = charSpace) = l := by
  induction n with
  | zero =>
    rw [replicate_zero, append_nil, rdropWhile_eq_self_iff]
    intro hne
    have hlast := h _ (getLast_mem hne)
    simpa using fun heq : l.getLast hne = charSpace => absurd hlast (by rw [heq]; decide)
  | succ n ih => rw [replicate_succ', ← append_assoc, rdropWhile_concat_pos _ _ _ (by simp), ih]

theorem makeShortName_eq_dirMakeShortName (h : charSlash ∉ name) :
    makeShortName name = dirMakeShortName name := by
  cases name with
  | nil => rfl
  | cons ch rest =>
    have hch : ch ≠ charSlash := fun he => h (by simp [he])
    simp only [makeShortName, dirMakeShortName, if_neg hch, shortNameLoop_backslash]

section
variable (h : makeShortName name = some out)
include h

/-- The parts of an encoded name: padded they are the name, printed they are the text it was made
from. -/
theorem makeShortName_parts :
    ∃ base ext, out = padName base ext ∧ base ≠ [] ∧ base.length ≤ 8 ∧ ext.length ≤ 3 ∧
      (∀ c ∈ base ++ ext, charSpace < c ∧ c ≠ charDot) ∧
      (charSlash ∉ name →
        (base ++ if ext = [] then [] else charDot :: ext) = name.map asciiUpper) := by
  cases name with
  | nil => simp [makeShortName] at h
  | cons ch rest =>
    simp only [makeShortName] at h
    split_ifs at h with hslash
    · obtain ⟨base, ext, hout, hne, hb, he, hprint, -⟩ :=
        shortNameLoop_some (by simp) (by simp) (by simp) (fun _ => rfl) h
      exact ⟨base, ext, hout, hne, hb, he, hprint, fun hs => absurd (by simp [hslash]) hs⟩
    · obtain ⟨base, ext, hout, hne, hb, he, hprint, htext⟩ :=
        shortNameLoop_some (by simp) (by simp) (by simp) (fun _ => rfl) h
      exact ⟨base, ext, hout, hne, hb, he, hprint, fun _ => by simpa using htext⟩

theorem makeShortName_spec : out.length = 11 ∧ out.getD 0 0 ≠ 0 := by
  obtain ⟨base, ext, rfl, hne, hb, he, hprint, -⟩ := makeShortName_parts h
  obtain ⟨c, cs, rfl⟩ := exists_cons_of_ne_nil hne
  refine ⟨by simp [padName] at hb ⊢; omega, ?_⟩
  have hc := (hprint c (by simp)).1
  rintro rfl
  exact absurd hc (by decide)

theorem dirCopyName_makeShortName (hs : charSlash ∉ name) (e : DirEntry) (he : e.name = out) :
    dirCopyName e = some (name.map asciiUpper) := by
  obtain ⟨base, ext, rfl, hne, hb, hx, hprint, htext⟩ := makeShortName_parts h
  have hfirst : (base ++ replicate (8 - base.length) charSpace).length = 8 := by
    simp
    omega
  have hbase : e.base = base := by
    rw [DirEntry.base, he, padName, take_left' hfirst]
    exact rdropWhile_pad (fun c hc => (hprint c (by simp [hc])).1) _
  have hext : e.extension = ext := by
    rw [DirEntry.extension, he, padName, drop_left' hfirst]
    exact rdropWhile_pad (fun c hc => (hprint c (by simp [hc])).1) _
  have hprinted : e.text = name.map asciiUpper := by
    rw [DirEntry.text, hbase, hext]
    exact htext hs
  have hshort : e.text.length < shortNameMax := by
    rw [DirEntry.text, hbase, hext, length_append]
    split_ifs <;> simp [shortNameMax] <;> omega
  rw [dirCopyName, if_neg (by rw [hbase]; exact not_or.2 ⟨hne, Nat.not_le.2 hshort⟩), hprinted]

end

theorem map_asciiUpper_noSlash (h : charSlash ∉ name) : charSlash ∉ name.map asciiUpper := by
  intro hmem
  obtain ⟨c, hc, hslash⟩ := mem_map.1 hmem
  exact h ((asciiUpper_spec c).2.2.1.1 hslash ▸ hc)

theorem makeShortName_upper (h : charSlash ∉ name) :
    makeShortName (name.map asciiUpper) = makeShortName name := by
  rw [makeShortName_eq_dirMakeShortName h,
    makeShortName_eq_dirMakeShortName (map_asciiUpper_noSlash h)]
  cases name with
  | nil => rfl
  | cons ch rest => exact shortNameLoop_upper

/-- On a name without a slash both encoders give the same result, the file manager accepts the names
they accept, equal encodings are those of names equal up to letter case, and the printed form of an
encoded name encodes to it again. -/
theorem short_names_agree (name : List UInt8) (hs : charSlash ∉ name) :
    makeShortName name = dirMakeShortName name ∧
    valid83Name name = (makeShortName name).isSome ∧
    ∀ out, makeShortName name = some out →
      (∀ other out', charSlash ∉ other → makeShortName other = some out' →
        (out = out' ↔ name.map asciiUpper = other.map asciiUpper)) ∧
      ∀ e : DirEntry, e.name = out → ∃ text, dirCopyName e = some text ∧
        makeShortName text = some out ∧ dirMakeShortName text = some out := by
  refine ⟨makeShortName_eq_dirMakeShortName hs, ?_, fun out hout => ⟨?_, fun e he => ?_⟩⟩
  · rw [makeShortName_eq_dirMakeShortName hs]
    cases name with
    | nil => rfl
    | cons ch rest => exact @valid83Loop_eq (ch :: rest) [] [] false
  · intro other out' hs' hout'
    constructor
    · rintro rfl
      have htext := dirCopyName_makeShortName hout hs ⟨out, 0, 0, 0⟩ rfl
      rw [dirCopyName_makeShortName hout' hs' ⟨out, 0, 0, 0⟩ rfl] at htext
      exact (some.inj htext).symm
    · intro heq
      rw [← makeShortName_upper hs, heq, makeShortName_upper hs', hout'] at hout
      exact (some.inj hout).symm
  · have hagain := (makeShortName_upper hs).trans hout
    refine ⟨_, dirCopyName_makeShortName hout hs e he, hagain, ?_⟩
    rw [← makeShortName_eq_dirMakeShortName (map_asciiUpper_noSlash hs), hagain]

/-- `a.b` is accepted, and its printed form `A.B` encodes to the same bytes. -/
theorem short_names_agree_letters :
    charSlash ∉ ([97, 46, 98] : List UInt8) ∧ valid83Name [97, 46, 98] = true ∧
    ∃ out, makeShortName [97, 46, 98] = some out ∧ dirMakeShortName [97, 46, 98] = some out ∧
      dirCopyName ⟨out, 0, 0, 0⟩ = some [65, 46, 66] ∧ makeShortName [65, 46, 66] = some out := by
  have hout : makeShortName [97, 46, 98] = some (padName [65] [66]) := by decide +kernel
  obtain ⟨hsame, hvalid, hall⟩ := short_names_agree [97, 46, 98] (by decide)
  obtain ⟨text, hcopy, hagain, -⟩ := (hall _ hout).2 ⟨_, 0, 0, 0⟩ rfl
  have htext : dirCopyName ⟨padName [65] [66], 0, 0, 0⟩ = some [65, 46, 66] := by decide +kernel
  obtain rfl := some.inj (htext.symm.trans hcopy)
  exact ⟨by decide, by rw [hvalid, hout]; rfl, _, hout, by rw [← hsame, hout], htext, hagain⟩

end Names
end Fat32
