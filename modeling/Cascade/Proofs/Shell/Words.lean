import Cascade.Proofs.Run.Action
import Cascade.Script.Backend

/-!
# Words that the shell reads back

The arguments of a command are written behind its script.  `words?` is how a shell splits a
text without commands in it into words: blanks and newlines stand between words, everything
between single quotes stands for itself, and so does a character behind a backslash.  What
would make the shell do more than splitting is refused.

By these rules exactly the arguments are read back, whatever they are made of, and the text in
which they are written is what the shell is handed behind the script (`commandScript_words`).
-/

namespace Cascade.Shell

/-! ## Splitting a text into words -/

/-- The characters that stand between words. -/
def breaks : List Char := [' ', '\t', '\n']

/-- The characters that make the shell do something: operators, expansions, patterns, the
tilde, comments and double quotes. -/
def actives : List Char :=
  ['|', '&', ';', '<', '>', '(', ')', '$', '`', '*', '?', '[', ']', '~', '#', '"']

/-- Where a text is read, with what was read of a word. -/
inductive Reading where
  /-- Outside of quotes.  Maybe no word has begun. -/
  | bare (word : Option (List Char))
  | quoted (word : List Char)
  /-- Behind a backslash. -/
  | escaped (word : List Char)

/-- The words that were read. -/
structure WordScan where
  words : List String
  reading : Reading

namespace WordScan

/-- The scan of a text of which nothing was read. -/
def start : WordScan := ⟨[], .bare none⟩

/-- Read one character, unless it would make the shell do something. -/
def step (s : WordScan) (c : Char) : Option WordScan :=
  match s.reading with
  | .bare word =>
    if c ∈ breaks then some ⟨s.words ++ word.toList.map String.ofList, .bare none⟩
    else if c = '\'' then some ⟨s.words, .quoted (word.getD [])⟩
    else if c = '\\' then some ⟨s.words, .escaped (word.getD [])⟩
    else if c ∈ actives then none
    else some ⟨s.words, .bare (some (word.getD [] ++ [c]))⟩
  | .quoted word =>
    if c = '\'' then some ⟨s.words, .bare (some word)⟩
    else some ⟨s.words, .quoted (word ++ [c])⟩
  | .escaped word => some ⟨s.words, .bare (some (word ++ [c]))⟩

/-- Read some characters. -/
def read (cs : List Char) (s : WordScan) : Option WordScan := cs.foldlM step s

/-- All words, if the text may end here. -/
def finish (s : WordScan) : Option (List String) :=
  match s.reading with
  | .bare word => some (s.words ++ word.toList.map String.ofList)
  | .quoted _ | .escaped _ => none

end WordScan

/-- The words of a text. -/
def words? (text : String) : Option (List String) :=
  (WordScan.start.read text.toList).bind WordScan.finish

example : words? "a\\ b 'c  d'e\n''" = some ["a b", "c  de", ""] := by decide
example : words? "a; b" = none := by decide

/-! ## Reading what was quoted -/

/-- A plain character is none of those that are not. -/
theorem notMem_of_isPlain {c : Char} (h : isPlain c = true) {cs : List Char}
    (hcs : cs.all (!isPlain ·) = true) : c ∉ cs := by
  intro hc
  have hother := List.all_eq_true.mp hcs c hc
  rw [h] at hother
  cases hother

namespace WordScan

variable {ws : List String} {word : List Char}

theorem read_append (cs cs' : List Char) (s : WordScan) :
    s.read (cs ++ cs') = (s.read cs).bind (read cs') := List.foldlM_append

/-- Outside of quotes, a plain character belongs to a word. -/
theorem step_plain {c : Char} (h : isPlain c = true) (word : Option (List Char)) :
    step ⟨ws, .bare word⟩ c = some ⟨ws, .bare (some (word.getD [] ++ [c]))⟩ := by
  have hbreak : c ∉ breaks := notMem_of_isPlain h (by decide)
  have hquotes : c ∉ ['\'', '\\'] := notMem_of_isPlain h (by decide)
  have hactive : c ∉ actives := notMem_of_isPlain h (by decide)
  simp only [List.mem_cons, List.not_mem_nil, not_or, or_false] at hquotes
  simp only [step, if_neg hbreak, if_neg hquotes.1, if_neg hquotes.2, if_neg hactive]

theorem read_plain {cs : List Char} (h : cs.all isPlain = true) :
    read cs ⟨ws, .bare (some word)⟩ = some ⟨ws, .bare (some (word ++ cs))⟩ := by
  induction cs generalizing word with
  | nil => simp [read]
  | cons c cs ih =>
    rw [List.all_cons, Bool.and_eq_true] at h
    show (step ⟨ws, .bare (some word)⟩ c).bind (read cs) = _
    rw [step_plain h.1, Option.bind_some, Option.getD_some, ih h.2, List.append_assoc]
    rfl

/-- Between quotes, every character is read as it is spelled there.  The spelling of a quote
leaves the quotes and comes back to them. -/
theorem read_quotedChar (c : Char) :
    read (quotedChar c) ⟨ws, .quoted word⟩ = some ⟨ws, .quoted (word ++ [c])⟩ := by
  unfold quotedChar
  split
  · rename_i hquote
    subst hquote
    rfl
  · rename_i hother
    show (step ⟨ws, .quoted word⟩ c).bind some = _
    simp only [step, if_neg hother, Option.bind_some]

theorem read_flatMap_quotedChar (cs : List Char) :
    read (cs.flatMap quotedChar) ⟨ws, .quoted word⟩ = some ⟨ws, .quoted (word ++ cs)⟩ := by
  induction cs generalizing word with
  | nil => simp [read]
  | cons c cs ih =>
    rw [List.flatMap_cons, read_append, read_quotedChar, Option.bind_some, ih, List.append_assoc]
    rfl

/-- Where no word has begun, the spelling of a word is read as that word. -/
theorem read_quoteChars (word : List Char) :
    read (quoteChars word) ⟨ws, .bare none⟩ = some ⟨ws, .bare (some word)⟩ := by
  unfold quoteChars
  split
  · rename_i hplain
    cases word with
    | nil => cases hplain
    | cons c cs =>
      rw [Bool.and_eq_true, List.all_cons, Bool.and_eq_true] at hplain
      show (step ⟨ws, .bare none⟩ c).bind (read cs) = _
      rw [step_plain hplain.2.1, Option.bind_some, read_plain hplain.2.2]
      rfl
  · rw [List.append_assoc, read_append]
    show read _ ⟨ws, .quoted []⟩ = _
    rw [read_append, read_flatMap_quotedChar]
    rfl

/-- Behind a space, the spelling of a word is one more word. -/
theorem read_space_quote {s : WordScan} (h : s.finish = some ws) (word : String) :
    s.read (" " ++ quote word).toList = some ⟨ws, .bare (some word.toList)⟩ := by
  rcases s with ⟨words, reading⟩
  cases reading with
  | bare begun =>
    have hws : words ++ begun.toList.map String.ofList = ws := Option.some.inj h
    simp only [String.toList_append, quote, String.toList_ofList]
    show read (quoteChars word.toList) ⟨words ++ begun.toList.map String.ofList, .bare none⟩ = _
    rw [hws, read_quoteChars]
  | quoted _ => cases h
  | escaped _ => cases h

/-- The words that are written behind a text are words behind those of the text. -/
theorem finish_appendedWords (words : List String) {s : WordScan} (h : s.finish = some ws) :
    (s.read (appendedWords words).toList).bind finish = some (ws ++ words) := by
  induction words generalizing s ws with
  | nil =>
    rw [List.append_nil, ← h]
    rfl
  | cons word words ih =>
    have hword : finish ⟨ws, .bare (some word.toList)⟩ = some (ws ++ [word]) := by
      simp [finish]
    have hspelled : (appendedWords (word :: words)).toList =
        (" " ++ quote word).toList ++ (appendedWords words).toList := by
      simp [appendedWords, String.join_cons]
    rw [hspelled, read_append, read_space_quote h, Option.bind_some, ih hword, List.append_assoc]
    rfl

end WordScan

/-- A text with words behind it has its own words, and then those. -/
theorem words_withArguments {text : String} {ws : List String} (h : words? text = some ws)
    (words : List String) : words? (withArguments text words) = some (ws ++ words) := by
  obtain ⟨s, hread, hfinish⟩ := Option.bind_eq_some_iff.mp h
  rw [words?, withArguments, String.toList_append, WordScan.read_append, hread, Option.bind_some]
  exact WordScan.finish_appendedWords words hfinish

end Cascade.Shell

namespace Cascade.Script

open Shell

variable {φ : Type}

/-! ## What the shell is handed -/

/-- What follows a call sees the files that the shell leaves. -/
theorem run_ofEffect_bind {α : Type} (runner : Runner φ) (call : Call)
    (f : Except Failure Ended → Task φ Console α) (journal : Log.Journal) (w : World φ Console) :
    ((Task.ofEffect (run runner call) >>= f).run.run journal).run w =
      ((f (runner call w.stored.files).1).run.run journal).run
        { w with stored := { w.stored with files := (runner call w.stored.files).2 } } := by
  rw [Task.run_bind, Routine.run_bind]
  rfl

/-- A script that writes to the console is handed to the shell, and nothing else changes files. -/
theorem files_runScript (s : Setting φ) (d : Dependency) (script : String)
    (more : List (String × String)) (journal : Log.Journal) (w : World φ Console) :
    (((s.runScript .console d script more).run.run journal).run w).2.stored.files =
      (s.runner ⟨script, d.path, dependencyVariables d ++ s.environment ++ more⟩
        w.stored.files).2 := by
  unfold Setting.runScript
  rw [Task.run_bind, Routine.run_bind]
  change (((Task.ofEffect (run s.runner _) >>= _ : Task φ Console _).run.run journal).run
    (w.withLog [startEntry d script])).2.stored.files = _
  rw [run_ofEffect_bind]
  change _ = (s.runner _ (w.withLog [startEntry d script]).stored.files).2
  cases (s.runner _ (w.withLog [startEntry d script]).stored.files).1 with
  | error failure => rfl
  | ok ended =>
    dsimp only
    split <;> rfl

theorem commandScript_of_configured {d : Dependency} {command script : String}
    (h : d.config.commands[command]? = some script) (arguments : List String) :
    commandScript d command arguments = .ok (script ++ appendedWords arguments) := by
  rw [commandScript, h]
  rfl

/-- A command hands its script to the shell. -/
theorem files_command (s : Setting φ) {d : Dependency} {command script : String}
    {arguments : List String} (h : commandScript d command arguments = .ok script)
    (journal : Log.Journal) (w : World φ Console) :
    (((s.backend.command d command arguments).run.run journal).run w).2.stored.files =
      (s.runner ⟨script, d.path, dependencyVariables d ++ s.environment⟩ w.stored.files).2 := by
  have hcommand : s.backend.command d command arguments =
      s.runScript .console d script [] >>= fun _ => pure () := by
    change (ExceptT.mk (pure (commandScript d command arguments)) >>= fun script =>
      discard (s.runScript .console d script []) : Task φ Console Unit) = _
    rw [h]
    rfl
  have hscript := files_runScript s d script [] journal w
  rw [List.append_nil] at hscript
  rw [hcommand, Task.run_bind, Routine.run_bind, ← hscript]
  rcases ((s.runScript .console d script []).run.run journal).run w with ⟨⟨result, journal'⟩, w'⟩
  cases result <;> rfl

/-! ## Commands with arguments -/

/-- The script of a configured command with arguments is the configured one and a text behind
it, which consists of exactly the arguments as words.  So other arguments are always spelled in
another way.  A script that is itself made of words has its own words first.

The text is what the shell gets: whatever shell it is, a command leaves the files that the shell
leaves when it is called with that script. -/
theorem commandScript_words (s : Setting φ) (d : Dependency) (command : String)
    (arguments : List String) :
    (∀ script, d.config.commands[command]? = some script →
      commandScript d command arguments = .ok (script ++ appendedWords arguments) ∧
      (∀ journal w,
        (((s.backend.command d command arguments).run.run journal).run w).2.stored.files =
          (s.runner ⟨script ++ appendedWords arguments, d.path,
            dependencyVariables d ++ s.environment⟩ w.stored.files).2) ∧
      ∀ ws, words? script = some ws →
        words? (script ++ appendedWords arguments) = some (ws ++ arguments)) ∧
    commandScript d command arguments =
      (commandScript d command []).map (· ++ appendedWords arguments) ∧
    words? (appendedWords arguments) = some arguments ∧
    Function.Injective appendedWords := by
  have hwords (arguments : List String) : words? (appendedWords arguments) = some arguments := by
    have hempty : words? "" = some [] := rfl
    have hbehind := words_withArguments hempty arguments
    rwa [withArguments, String.empty_append] at hbehind
  refine ⟨fun script hscript => ?_, ?_, hwords arguments, fun words words' heq => ?_⟩
  · have hfull := commandScript_of_configured hscript arguments
    exact ⟨hfull, files_command s hfull, fun ws hws => words_withArguments hws arguments⟩
  · cases hscript : d.config.commands[command]? with
    | none =>
      rw [commandScript, commandScript, hscript]
      rfl
    | some script =>
      have hbare : script ++ appendedWords [] = script := String.append_empty
      rw [commandScript_of_configured hscript, commandScript_of_configured hscript, hbare]
      rfl
  · have hsame := hwords words
    rw [heq, hwords words'] at hsame
    exact (Option.some.inj hsame).symm

/-- A dependency with one command. -/
def tested : Dependency :=
  ⟨"/api", "api", ⟨"/api"⟩, { Config.empty with commands := .ofList [("test", "make test")] },
    ⟨"/api", false, []⟩, .standard, true, []⟩

/-- A shell that keeps the scripts that it is handed. -/
def keeper : Setting (List String) :=
  ⟨fun call scripts => (.ok ⟨.exited 0, .empty, .empty⟩, scripts ++ [call.script]), []⟩

/-- Three arguments that have to be quoted are three words behind the command. -/
theorem commandScript_words_tested : tested.config.commands["test"]? = some "make test" ∧
    (((keeper.backend.command tested "test" ["it's", "a b", ""]).run.run
        (.new "api" false)).run ⟨⟨[], .memory ∅⟩, [], ∅, [], .empty⟩).2.stored.files =
      ["make test 'it'\\''s' 'a b' ''"] ∧
    words? "make test 'it'\\''s' 'a b' ''" = some ["make", "test", "it's", "a b", ""] := by
  have hconfigured : tested.config.commands["test"]? = some "make test" := by decide +kernel
  obtain ⟨hcommand, _⟩ := commandScript_words keeper tested "test" ["it's", "a b", ""]
  obtain ⟨_, hfiles, hbehind⟩ := hcommand "make test" hconfigured
  exact ⟨hconfigured, hfiles _ _, hbehind ["make", "test"] (by decide)⟩

end Cascade.Script
