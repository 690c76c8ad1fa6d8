import Fleet.Platform

/-!
# Reading platforms

`Platform.Spells` is the grammar of a platform text: one colon, and on each
side of it a word that is not blank, with blanks around it or not. Two things
are said about the reader:

* **what it accepts** — texts of the grammar, and texts of the grammar followed
  by a second colon and anything else (`Begins`); every other text is refused
  with an error that carries it. `parse_reads` says that it departs from the
  grammar in this way and in no other;
* **round trip** — whatever text a platform was read from, the platform is
  written as a text of the grammar, and read back from it.
-/

namespace Fleet

/-! ## Trimming -/

namespace Text

/-- A word with its surrounding blanks: nothing but blanks is left out, and the
word neither begins nor ends with one. -/
structure Trims (part word : List Char) : Prop where
  around : ∃ before after, part = before ++ (word ++ after) ∧
    (∀ c ∈ before, isBlank c = true) ∧ ∀ c ∈ after, isBlank c = true
  head : ∀ c ∈ word.head?, isBlank c = false
  last : ∀ c ∈ word.getLast?, isBlank c = false

theorem dropWhile_of_head {cs : List Char} (h : ∀ c ∈ cs.head?, isBlank c = false) :
    cs.dropWhile isBlank = cs := by
  cases cs with
  | nil => rfl
  | cons c rest => rw [List.dropWhile_cons, h c rfl]; rfl

theorem not_blank_of_head_dropWhile (cs : List Char) :
    ∀ c ∈ (cs.dropWhile isBlank).head?, isBlank c = false := by
  intro c hc
  have hfirst := List.head?_dropWhile_not isBlank cs
  rw [Option.mem_def.mp hc] at hfirst
  simpa using hfirst

theorem trims_trimChars (part : List Char) : Trims part (trimChars part) := by
  let kept := part.dropWhile isBlank
  have hkept : trimChars part ++ (kept.reverse.takeWhile isBlank).reverse = kept := by
    rw [trimChars, ← List.reverse_append, List.takeWhile_append_dropWhile, List.reverse_reverse]
  have hblank : ∀ {cs : List Char}, ∀ c ∈ cs.takeWhile isBlank, isBlank c = true :=
    fun c hc => List.all_eq_true.mp List.all_takeWhile c hc
  refine ⟨⟨part.takeWhile isBlank, (kept.reverse.takeWhile isBlank).reverse, ?_, hblank, ?_⟩, ?_, ?_⟩
  · rw [hkept]
    exact List.takeWhile_append_dropWhile.symm
  · exact fun c hc => hblank c (List.mem_reverse.mp hc)
  · -- the first character of the word is the first one kept
    intro c hc
    refine not_blank_of_head_dropWhile part c ?_
    show c ∈ kept.head?
    rw [← hkept, List.head?_append, Option.mem_def.mp hc]
    rfl
  · intro c hc
    rw [trimChars, List.getLast?_reverse] at hc
    exact not_blank_of_head_dropWhile _ c hc

/-- A part has one word only. -/
theorem Trims.eq_trimChars {part word : List Char} (h : Trims part word) :
    word = trimChars part := by
  obtain ⟨before, after, rfl, hbefore, hafter⟩ := h.around
  rw [trimChars, List.dropWhile_append_of_pos hbefore]
  cases word with
  | nil =>
    have hnone : after.dropWhile isBlank = [] := by
      rw [← List.append_nil after, List.dropWhile_append_of_pos hafter, List.dropWhile_nil]
    rw [List.nil_append, hnone]
    rfl
  | cons c rest =>
    have hafter' : ∀ c ∈ after.reverse, isBlank c = true :=
      fun c hc => hafter c (List.mem_reverse.mp hc)
    have hlast : ∀ d ∈ (c :: rest).reverse.head?, isBlank d = false := by
      rw [List.head?_reverse]
      exact h.last
    have hfirst : (c :: rest ++ after).dropWhile isBlank = c :: rest ++ after :=
      dropWhile_of_head h.head
    rw [hfirst, List.reverse_append, List.dropWhile_append_of_pos hafter', dropWhile_of_head hlast,
      List.reverse_reverse]

/-- A word has no surrounding blanks itself. -/
theorem Trims.self {part word : List Char} (h : Trims part word) : Trims word word :=
  ⟨⟨[], [], by simp, by simp, by simp⟩, h.head, h.last⟩

end Text

namespace Platform

/-! ## The grammar -/

/-- What stands on one side of a colon spells a word that is not blank. -/
structure Side (part : List Char) (word : String) : Prop where
  trims : Text.Trims part word.toList
  ne_empty : word ≠ ""
  no_colon : ':' ∉ part

/-- A text is of the form `os:arch`: it has one colon, and on its sides the two
words of the platform. -/
def Spells (text : String) (p : Platform) : Prop :=
  ∃ first second, text.toList = first ++ ':' :: second ∧ Side first p.os ∧ Side second p.arch

/-- A text spells a platform, or does so up to its second colon. -/
def Begins (text : String) (p : Platform) : Prop :=
  ∃ head, Spells head p ∧ (text = head ∨ ∃ tail, text = head ++ ":" ++ tail)

/-! ## Splitting at a colon -/

theorem splitColon_of_notMem {cs : List Char} (h : ':' ∉ cs) : splitColon cs = (cs, none) := by
  induction cs with
  | nil => rfl
  | cons c rest ih =>
    rw [List.mem_cons, not_or] at h
    obtain ⟨hc, hrest⟩ := h
    rw [splitColon, if_neg (Ne.symm hc), ih hrest]

theorem splitColon_append {first : List Char} (h : ':' ∉ first) (rest : List Char) :
    splitColon (first ++ ':' :: rest) = (first, some rest) := by
  induction first with
  | nil => rfl
  | cons c first ih =>
    rw [List.mem_cons, not_or] at h
    obtain ⟨hc, hfirst⟩ := h
    rw [List.cons_append, splitColon, if_neg (Ne.symm hc), ih hfirst]

/-- What is after a part: nothing, or a colon and anything else. -/
def Rest (cs : List Char) : Prop := cs = [] ∨ ∃ tail, cs = ':' :: tail

theorem fst_splitColon {first rest : List Char} (h : ':' ∉ first) (hrest : Rest rest) :
    (splitColon (first ++ rest)).1 = first := by
  rcases hrest with rfl | ⟨tail, rfl⟩
  · rw [List.append_nil, splitColon_of_notMem h]
  · rw [splitColon_append h]

/-- Any text ends, or goes on after its first colon. -/
theorem exists_rest (cs : List Char) :
    ∃ first rest, cs = first ++ rest ∧ ':' ∉ first ∧ Rest rest := by
  by_cases h : ':' ∈ cs
  · obtain ⟨first, tail, hcs, hfirst⟩ := List.eq_append_cons_of_mem h
    exact ⟨first, ':' :: tail, hcs, hfirst, .inr ⟨tail, rfl⟩⟩
  · exact ⟨cs, [], by simp, h, .inl rfl⟩

/-! ## The reader -/

theorem parts?_of_notMem {cs : List Char} (h : ':' ∉ cs) : parts? cs = none := by
  rw [parts?, splitColon_of_notMem h]

theorem parts?_append {first second rest : List Char} (hfirst : ':' ∉ first)
    (hsecond : ':' ∉ second) (hrest : Rest rest) :
    parts? (first ++ ':' :: (second ++ rest)) =
      if (Text.trimChars first).isEmpty || (Text.trimChars second).isEmpty then none
      else some (Text.trimChars first, Text.trimChars second) := by
  rw [parts?, splitColon_append hfirst]
  simp only [fst_splitColon hsecond hrest]

theorem Side.toList_eq {part : List Char} {word : String} (h : Side part word) :
    word.toList = Text.trimChars part := h.trims.eq_trimChars

theorem Side.isEmpty_trimChars {part : List Char} {word : String} (h : Side part word) :
    (Text.trimChars part).isEmpty = false := by
  rw [← h.toList_eq]
  simpa using h.ne_empty

theorem side_trimChars {part : List Char} (hcolon : ':' ∉ part)
    (hblank : (Text.trimChars part).isEmpty = false) :
    Side part (String.ofList (Text.trimChars part)) := by
  refine ⟨?_, ?_, hcolon⟩
  · rw [String.toList_ofList]
    exact Text.trims_trimChars part
  · simpa using hblank

theorem parse_of_begins {text : String} {p : Platform} (h : Begins text p) :
    parse text = .ok p := by
  obtain ⟨head, ⟨first, second, hhead, hos, harch⟩, htext⟩ := h
  obtain ⟨rest, hrest, hlist⟩ :
      ∃ rest, Rest rest ∧ text.toList = first ++ ':' :: (second ++ rest) := by
    rcases htext with rfl | ⟨tail, rfl⟩
    · exact ⟨[], .inl rfl, by rw [hhead, List.append_nil]⟩
    · exact ⟨':' :: tail.toList, .inr ⟨_, rfl⟩, by simp [hhead]⟩
  rw [parse, hlist, parts?_append hos.no_colon harch.no_colon hrest, hos.isEmpty_trimChars,
    harch.isEmpty_trimChars, ← hos.toList_eq, ← harch.toList_eq]
  simp

theorem begins_of_parse {text : String} {p : Platform} (h : parse text = .ok p) :
    Begins text p := by
  obtain ⟨first, rest, htext, hfirst, hrest⟩ := exists_rest text.toList
  rcases hrest with rfl | ⟨tail, rfl⟩
  · rw [List.append_nil] at htext
    rw [parse, htext, parts?_of_notMem hfirst] at h
    cases h
  · obtain ⟨second, rest, rfl, hsecond, hrest⟩ := exists_rest tail
    rw [parse, htext, parts?_append hfirst hsecond hrest] at h
    split at h
    · next os arch hparts =>
      cases h
      split at hparts
      · cases hparts
      · next hblank =>
        cases hparts
        simp only [Bool.or_eq_true, not_or, Bool.not_eq_true] at hblank
        refine ⟨String.ofList (first ++ ':' :: second), ⟨first, second, by simp,
          side_trimChars hfirst hblank.1, side_trimChars hsecond hblank.2⟩, ?_⟩
        rcases hrest with rfl | ⟨tail, rfl⟩
        · left
          rw [List.append_nil] at htext
          rw [← htext, String.ofList_toList]
        · right
          refine ⟨String.ofList tail, ?_⟩
          rw [← String.toList_inj, htext]
          simp
    · cases h

theorem parse_eq_ok_iff {text : String} {p : Platform} : parse text = .ok p ↔ Begins text p :=
  ⟨begins_of_parse, parse_of_begins⟩

theorem parse_eq_error_iff {text : String} :
    parse text = .error (.invalidPlatform text) ↔ ¬∃ p, Begins text p := by
  simp only [← parse_eq_ok_iff]
  unfold parse
  split <;> simp

/-! ## The grammar and the reader -/

theorem Spells.count {text : String} {p : Platform} (h : Spells text p) :
    text.toList.count ':' = 1 := by
  obtain ⟨first, second, htext, hos, harch⟩ := h
  rw [htext, List.count_append, List.count_cons_self, List.count_eq_zero.mpr hos.no_colon,
    List.count_eq_zero.mpr harch.no_colon]

/-- With one colon only, the reader reads the whole text. -/
theorem Begins.spells {text : String} {p : Platform} (h : Begins text p)
    (hone : text.toList.count ':' ≤ 1) : Spells text p := by
  obtain ⟨head, hspells, rfl | ⟨tail, rfl⟩⟩ := h
  · exact hspells
  · have hhead := hspells.count
    have hsecond : (":" : String).toList.count ':' = 1 := by decide
    rw [String.toList_append, String.toList_append, List.count_append, List.count_append, hhead,
      hsecond] at hone
    omega

theorem Side.self {part : List Char} {word : String} (h : Side part word) :
    Side word.toList word := by
  refine ⟨h.trims.self, h.ne_empty, fun hin => h.no_colon ?_⟩
  obtain ⟨before, after, rfl, -, -⟩ := h.trims.around
  simp [hin]

theorem Begins.spells_text {text : String} {p : Platform} (h : Begins text p) :
    Spells p.text p := by
  obtain ⟨head, ⟨first, second, -, hos, harch⟩, -⟩ := h
  exact ⟨p.os.toList, p.arch.toList, by simp [Platform.text], hos.self, harch.self⟩

/-- The reader accepts the texts that spell a platform up to a second colon,
and refuses any other text with an error that carries it. It reads by the
grammar exactly the texts that do not go on after a second colon. What was
read is written by the grammar, and read back from that. -/
theorem parse_reads (text : String) :
    (∀ p, parse text = .ok p ↔ Begins text p) ∧
    (parse text = .error (.invalidPlatform text) ↔ ¬∃ p, Begins text p) ∧
    ((∀ p, parse text = .ok p ↔ Spells text p) ↔
      ¬(1 < text.toList.count ':' ∧ ∃ p, Begins text p)) ∧
    ∀ p, parse text = .ok p → Spells p.text p ∧ parse p.text = .ok p := by
  refine ⟨fun p => parse_eq_ok_iff, parse_eq_error_iff, ⟨fun hreads hlong => ?_, fun h p => ?_⟩,
    fun p hp => ?_⟩
  · obtain ⟨hcount, p, hbegins⟩ := hlong
    have hone := ((hreads p).mp (parse_of_begins hbegins)).count
    omega
  · rw [parse_eq_ok_iff]
    refine ⟨fun hbegins => hbegins.spells ?_, fun hspells => ⟨text, hspells, .inl rfl⟩⟩
    exact Nat.le_of_not_lt fun hcount => h ⟨hcount, p, hbegins⟩
  · have hspells := (begins_of_parse hp).spells_text
    exact ⟨hspells, parse_of_begins ⟨p.text, hspells, .inl rfl⟩⟩

/-- A third part goes unnoticed: the text has two colons, and yet a platform is
read from it. -/
theorem third_part_unread :
    parse "unix:amd64:x" = .ok ⟨"unix", "amd64"⟩ ∧ ¬∃ p, Spells "unix:amd64:x" p := by
  refine ⟨by rfl, fun ⟨p, hspells⟩ => ?_⟩
  have hone := hspells.count
  revert hone
  decide

end Platform

end Fleet
