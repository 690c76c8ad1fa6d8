import Fleet.Shell.Quote

/-!
# What a shell reads

`Shell.Reading` is a shell's way through a text, character by character, as far
as quoting goes:

* **blanks** that are not quoted end a word;
* **single quotes** take every character up to the next single quote as it is;
* **a backslash** outside of quotes takes the next character as it is;
* **special characters** that are neither quoted nor after a backslash are
  operators, expansions or patterns to a shell: at one of these the reading
  fails.

`render_reads` is what the quoting of arguments is for: a shell that comes to
them unquoted reads each argument as one word, whatever characters are in it,
and no character of any of them is special to it.
-/

namespace Fleet.Shell

/-- The characters by which a shell is told to do something else than to read a
word, quotes, backslashes and blanks apart. An equals sign is none of them: it
makes an assignment only before the name of a command. -/
def specials : List Char :=
  ['|', '&', ';', '<', '>', '(', ')', '$', '\x60', '\x22', '\n', '*', '?', '[', ']', '#', '~', '%',
    '!', '^', '\x7b', '\x7d']

/-- How a shell takes the next character. -/
inductive Mode
  | unquoted
  | quoted
  | escaped
  deriving DecidableEq, Repr

/-- How far a shell has come: the words before, and the one being read if it
has begun. -/
structure Reading where
  words : List (List Char) := []
  word : Option (List Char) := none
  mode : Mode := .unquoted
  deriving DecidableEq, Repr

namespace Reading

/-- One more character of the word being read. -/
def take (r : Reading) (c : Char) : Reading := { r with word := some (r.word.getD [] ++ [c]) }

/-- One more character of the text; none when a special character stands
unquoted. -/
def step (r : Reading) (c : Char) : Option Reading :=
  match r.mode with
  | .escaped => some { r.take c with mode := .unquoted }
  | .quoted => if c = '\'' then some { r with mode := .unquoted } else some (r.take c)
  | .unquoted =>
    if c = ' ' ∨ c = '\t' then some { words := r.words ++ r.word.toList }
    else if c = '\'' then some { r with word := some (r.word.getD []), mode := .quoted }
    else if c = '\\' then some { r with mode := .escaped }
    else if c ∈ specials then none
    else some (r.take c)

/-- Reads on through a text. -/
def read (r : Reading) (text : List Char) : Option Reading := text.foldlM step r

/-- All words at the end of the text; none inside of quotes. -/
def finish (r : Reading) : Option (List (List Char)) :=
  if r.mode = .unquoted then some (r.words ++ r.word.toList) else none

end Reading

/-- The words that a shell reads in a text. -/
def words (text : String) : Option (List String) :=
  ((Reading.read {} text.toList).bind Reading.finish).map (·.map String.ofList)

/-! ## Reading what was quoted -/

namespace Reading

variable {done : List (List Char)}

@[simp] theorem read_nil (r : Reading) : r.read [] = some r := rfl

theorem read_cons (r : Reading) (c : Char) (text : List Char) :
    r.read (c :: text) = (r.step c).bind (·.read text) := rfl

theorem read_append (r : Reading) (first second : List Char) :
    r.read (first ++ second) = (r.read first).bind (·.read second) := List.foldlM_append

theorem not_special_of_isPlain {c : Char} (h : isPlain c = true) :
    ¬(c = ' ' ∨ c = '\t') ∧ c ≠ '\'' ∧ c ≠ '\\' ∧ c ∉ specials := by
  have hspecial : (' ' :: '\t' :: '\'' :: '\\' :: specials).all (fun d => !isPlain d) = true := rfl
  have hout : c ∉ ' ' :: '\t' :: '\'' :: '\\' :: specials := fun hin => by
    simpa [h] using List.all_eq_true.mp hspecial c hin
  simpa [not_or, and_assoc] using hout

/-- A plain character is one of the word. -/
theorem step_plain {c : Char} (h : isPlain c = true) (r : Reading) (hr : r.mode = .unquoted) :
    r.step c = some (r.take c) := by
  obtain ⟨hblank, hquote, hbackslash, hspecial⟩ := not_special_of_isPlain h
  rw [step, hr]
  simp only [if_neg hblank, if_neg hquote, if_neg hbackslash, if_neg hspecial]

theorem read_plain (word : List Char) {cs : List Char} (h : ∀ c ∈ cs, isPlain c = true) :
    read ⟨done, some word, .unquoted⟩ cs = some ⟨done, some (word ++ cs), .unquoted⟩ := by
  induction cs generalizing word with
  | nil => simp
  | cons c rest ih =>
    have hrest := ih (word ++ [c]) fun d hd => h d (List.mem_cons_of_mem c hd)
    rw [read_cons, step_plain (h c List.mem_cons_self) _ rfl]
    simpa [take] using hrest

/-- A quoted character is one of the word, and the shell is inside of quotes
again after it. -/
theorem read_quoteChar (word : List Char) (c : Char) :
    read ⟨done, some word, .quoted⟩ (quoteChar c) = some ⟨done, some (word ++ [c]), .quoted⟩ := by
  unfold quoteChar
  split
  · -- out of the quotes, a backslash, and back into them
    rfl
  · next h =>
    rw [not_or] at h
    rw [read_cons, step]
    simp only [if_neg h.1]
    rfl

theorem read_quoteChars (word cs : List Char) :
    read ⟨done, some word, .quoted⟩ (cs.flatMap quoteChar) =
      some ⟨done, some (word ++ cs), .quoted⟩ := by
  induction cs generalizing word with
  | nil => simp
  | cons c rest ih =>
    rw [List.flatMap_cons, read_append, read_quoteChar]
    simpa using ih (word ++ [c])

/-- A word as it is quoted, read from its beginning. -/
theorem read_quote (cs : List Char) :
    read ⟨done, none, .unquoted⟩ (quote cs) = some ⟨done, some cs, .unquoted⟩ := by
  unfold quote
  split
  · next h =>
    simp only [isPlainWord, Bool.and_eq_true, Bool.not_eq_true', List.all_eq_true] at h
    obtain ⟨hne, hplain⟩ := h
    cases cs with
    | nil => cases hne
    | cons c rest =>
      rw [read_cons, step_plain (hplain c List.mem_cons_self) _ rfl]
      exact read_plain [c] fun d hd => hplain d (List.mem_cons_of_mem c hd)
  · rw [read_cons]
    show (read ⟨done, some [], .quoted⟩ (cs.flatMap quoteChar ++ ['\''])) = _
    rw [read_append, read_quoteChars]
    rfl

/-- Arguments read after whatever stands before them. -/
theorem read_quoteAll (args : List String) (begun : Option (List Char)) :
    (read ⟨done, begun, .unquoted⟩ (quoteAll args)).bind finish =
      some (done ++ begun.toList ++ args.map String.toList) := by
  induction args generalizing done begun with
  | nil => simp [quoteAll, finish]
  | cons arg rest ih =>
    have hblank : step ⟨done, begun, .unquoted⟩ ' ' =
        some ⟨done ++ begun.toList, none, .unquoted⟩ := rfl
    have hall : quoteAll (arg :: rest) = ' ' :: (quote arg.toList ++ quoteAll rest) := rfl
    rw [hall, read_cons, hblank, Option.bind_some, read_append, read_quote, Option.bind_some, ih]
    simp

end Reading

/-! ## Rendered commands -/

theorem words_quoteAll (args : List String) :
    words (String.ofList (quoteAll args)) = some args := by
  rw [words, String.toList_ofList, Reading.read_quoteAll]
  simp

example : words " 'a b'\\!'' ''" = some ["a b!", ""] := by decide +kernel

example : words " a;b" = none := by decide +kernel

/-- A command is rendered as its line and a text that a shell, unquoted when it
comes to it, reads as exactly the arguments, without meeting a special character;
so commands of one line are rendered alike only if their arguments are the same. -/
theorem render_reads (c : Command) :
    ∃ tail : String, render c = c.line ++ tail ∧
      (∀ done begun, ((⟨done, begun, .unquoted⟩ : Reading).read tail.toList).bind Reading.finish =
        some (done ++ begun.toList ++ c.args.map String.toList)) ∧
      ∀ args, render { c with args } = render c ↔ args = c.args := by
  refine ⟨String.ofList (quoteAll c.args), rfl, fun done begun => ?_, fun args => ⟨fun h => ?_, ?_⟩⟩
  · rw [String.toList_ofList]
    exact Reading.read_quoteAll c.args begun
  · -- the line is the same, so the rest is, and with it the words read there
    have htail : String.ofList (quoteAll args) = String.ofList (quoteAll c.args) := by
      rw [← String.toList_inj] at h ⊢
      simpa [render] using h
    have hwords := congrArg words htail
    rw [words_quoteAll, words_quoteAll] at hwords
    exact Option.some.inj hwords
  · rintro rfl
    rfl

end Fleet.Shell
