import CosmicSwingset.Foundation.ShellWords
import CosmicSwingset.Setup.Bootstrap

/-!
# Arguments on a shell's command line

`shellEscape` of `run.js` puts an argument in double quotes when it has one of the characters of
`shellMetaRegexp`, with a backslash before `"` and `\`, and leaves it as it is otherwise. In double
quotes the backquote and the dollar sign keep their meaning, and the regular expression does not
know of the operators `&`, `|`, `<`, `>`, `(` and `)`, of `#` and `~` where a word begins, nor of
the argument without characters.

A command line that is put together from escaped arguments has these arguments as its words exactly
when each of them is `Faithful` (`shellWords_commandLine_iff`). An argument that is not is dropped,
or drops what comes after it, or leaves no command with words at all, so that the words can only be
fewer (`length_lt_of_not_faithful`).
-/

set_option autoImplicit false
set_option relaxedAutoImplicit false

namespace CosmicSwingset.Setup

open Foundation Shell

/-- A character that `shellMetaRegexp` finds. -/
def isShellMeta (c : Char) : Bool :=
  isTrimmed c || ['[', ']', '\'', '"', '\\', '\x60', '$', ';', '*', '?', '\x7b', '\x7d'].contains c

/-- `arg.replace(/(["\\])/g, '\\$1')`. -/
def escapeQuotes (arg : Text) : Text :=
  arg.flatMap fun c ↦ if c = '"' ∨ c = '\\' then ['\\', c] else [c]

def shellEscape (arg : Text) : Text :=
  if arg.any isShellMeta then '"' :: (escapeQuotes arg ++ ['"']) else arg

/-- `args.map(shellEscape).join(' ')`. -/
def commandLine (args : List Text) : Text := [' '].intercalate (args.map shellEscape)

/-- Nothing in it is expanded in double quotes. -/
def quotable : Text → Bool
  | [] => true
  | c :: cs => c ≠ '\x60' && !(c = '$' && cs.head?.any startsExpansion) && quotable cs

/-- Nothing of it means anything to the shell outside quotes. -/
def plain (arg : Text) : Bool :=
  arg ≠ [] && arg.all (fun c ↦ !isOperator c) && !arg.head?.any fun c ↦ c = '#' || c = '~'

/-- What is put in quotes may be, and what is left as it is needs none. -/
def Faithful (arg : Text) : Prop :=
  if arg.any isShellMeta then quotable arg = true else plain arg = true

instance (arg : Text) : Decidable (Faithful arg) := by
  unfold Faithful
  infer_instance

/-! ### One argument -/

/-- After a dollar sign that is no expansion, the text goes on as if it were any character. -/
theorem run_dollar (done : List Text) (text : Text) {c : Char} (hc : startsExpansion c = false)
    (rest : Text) :
    run feed ⟨done, .word .double text .dollar⟩ (c :: rest) =
      run feed ⟨done, .word .double (text ++ ['$']) .none⟩ (c :: rest) := by
  have hfeed : feed ⟨done, .word .double text .dollar⟩ c =
      feed ⟨done, .word .double (text ++ ['$']) .none⟩ c := by
    simp [feed, hc]
  rw [run, run, hfeed]

theorem escapeQuotes_cons (c : Char) (cs : Text) :
    escapeQuotes (c :: cs) = (if c = '"' ∨ c = '\\' then ['\\', c] else [c]) ++ escapeQuotes cs :=
  rfl

/-- A backslash in front of a character does not make an expansion of it, and takes none away. -/
theorem exists_head_escapeQuotes (cs : Text) :
    ∃ c rest, escapeQuotes cs ++ ['"'] = c :: rest ∧
      startsExpansion c = cs.head?.any startsExpansion := by
  match cs with
  | [] => exact ⟨'"', [], rfl, by decide⟩
  | c :: cs =>
    by_cases hc : c = '"' ∨ c = '\\'
    · refine ⟨'\\', c :: (escapeQuotes cs ++ ['"']), by simp [escapeQuotes_cons, hc], ?_⟩
      have hquote : startsExpansion '"' = false := by decide
      have hbackslash : startsExpansion '\\' = false := by decide
      rcases hc with rfl | rfl <;> simp [hquote, hbackslash]
    · exact ⟨c, escapeQuotes cs ++ ['"'], by simp [escapeQuotes_cons, hc], rfl⟩

/-- The inside of the quotes, with the quote that ends it. -/
theorem run_escapeQuotes (done : List Text) (text arg : Text) :
    run feed ⟨done, .word .double text .none⟩ (escapeQuotes arg ++ ['"']) =
      if quotable arg then some ⟨done, .word .bare (text ++ arg) .none⟩ else none := by
  induction arg generalizing text with
  | nil => simp [escapeQuotes, run, feed, feedDouble, quotable]
  | cons c cs ih =>
    have hih : run feed ⟨done, .word .double (text ++ [c]) .none⟩ (escapeQuotes cs ++ ['"']) =
        if quotable cs then some ⟨done, .word .bare (text ++ c :: cs) .none⟩ else none := by
      rw [ih, List.append_assoc]
      rfl
    rw [escapeQuotes_cons, List.append_assoc]
    by_cases hquoted : c = '"' ∨ c = '\\'
    · have hquotable : quotable (c :: cs) = quotable cs := by
        rcases hquoted with rfl | rfl <;> simp [quotable]
      have hfeed : run feed ⟨done, .word .double text .none⟩ ['\\', c] =
          some ⟨done, .word .double (text ++ [c]) .none⟩ := by
        rcases hquoted with rfl | rfl <;> simp [run, feed, feedDouble, feedEscaped]
      rw [if_pos hquoted, run_append, hfeed, hquotable]
      exact hih
    · rw [if_neg hquoted, List.singleton_append, run]
      obtain ⟨hquote, hbackslash⟩ := not_or.mp hquoted
      by_cases hbackquote : c = '\x60'
      · simp [feed, feedDouble, quotable, hbackquote]
      · by_cases hdollar : c = '$'
        · have hfeed : feed ⟨done, .word .double text .none⟩ c =
              some ⟨done, .word .double text .dollar⟩ := by
            simp [feed, feedDouble, hdollar]
          obtain ⟨next, rest, hrest, hnext⟩ := exists_head_escapeQuotes cs
          rw [hfeed, Option.bind_some]
          cases hexpands : cs.head?.any startsExpansion with
          | true =>
            simp [hrest, run, feed, quotable, hdollar, hexpands, hnext]
          | false =>
            have hquotable : quotable (c :: cs) = quotable cs := by
              simp [quotable, hbackquote, hexpands]
            rw [hrest, run_dollar done text (hnext.trans hexpands) rest, ← hrest, hquotable,
              ← hdollar]
            exact hih
        · have hfeed : feed ⟨done, .word .double text .none⟩ c =
              some ⟨done, .word .double (text ++ [c]) .none⟩ := by
            simp [feed, feedDouble, hquote, hbackquote, hdollar, hbackslash]
          have hquotable : quotable (c :: cs) = quotable cs := by
            simp [quotable, hbackquote, hdollar]
          rw [hfeed, hquotable]
          exact hih

theorem ne_of_not_meta {c d : Char} (hc : isShellMeta c = false) (hd : isShellMeta d = true) :
    c ≠ d := by
  rintro rfl
  exact Bool.false_ne_true (hc.symm.trans hd)

/-- A character that is no metacharacter is one of an operator, or just itself. -/
theorem feedBare_of_not_meta (done : List Text) (text : Text) {c : Char}
    (hc : isShellMeta c = false) :
    feedBare done text c =
      if isOperator c then none else some ⟨done, .word .bare (text ++ [c]) .none⟩ := by
  have hne : ∀ d, isShellMeta d = true → c ≠ d := fun _ ↦ ne_of_not_meta hc
  have hblank : isBlank c = false := by
    simp [isBlank, hne ' ' (by decide), hne '\t' (by decide)]
  have hpattern : isPattern c = false := by
    simp [isPattern, hne '*' (by decide), hne '?' (by decide), hne '[' (by decide)]
  simp [feedBare, hblank, hpattern, hne '\x60' (by decide), hne '$' (by decide),
    hne '\\' (by decide), hne '"' (by decide), hne '\'' (by decide)]

theorem run_bare (done : List Text) (text : Text) {arg : Text}
    (harg : arg.any isShellMeta = false) :
    run feed ⟨done, .word .bare text .none⟩ arg =
      if arg.all fun c ↦ !isOperator c then some ⟨done, .word .bare (text ++ arg) .none⟩
      else none := by
  induction arg generalizing text with
  | nil => simp
  | cons c cs ih =>
    rw [List.any_cons, Bool.or_eq_false_iff] at harg
    rw [run]
    change (feedBare done text c).bind _ = _
    rw [feedBare_of_not_meta done text harg.1]
    cases hoperator : isOperator c with
    | true => simp [hoperator]
    | false => simp [hoperator, ih _ harg.2]

/-- Where a word may begin, only `#` and `~` mean something else than in the word. -/
theorem feed_between (done : List Text) {c : Char} (hmeta : isShellMeta c = false) :
    feed ⟨done, .between⟩ c =
      if c = '#' then some ⟨done, .comment⟩
      else if c = '~' then none
      else feed ⟨done, .word .bare [] .none⟩ c := by
  have hne : ∀ d, isShellMeta d = true → c ≠ d := fun _ ↦ ne_of_not_meta hmeta
  simp [feed, isBlank, hne ' ' (by decide), hne '\t' (by decide), hne '\\' (by decide)]

/-- What an argument does to the words: it is one of them if it is faithful, and nothing otherwise,
with the rest of the line or without. -/
theorem run_shellEscape (done : List Text) (arg : Text) :
    (Faithful arg ∧ run feed ⟨done, .between⟩ (shellEscape arg) =
        some ⟨done, .word .bare arg .none⟩) ∨
      ¬ Faithful arg ∧ (shellEscape arg = [] ∨
        run feed ⟨done, .between⟩ (shellEscape arg) = some ⟨done, .comment⟩ ∨
        run feed ⟨done, .between⟩ (shellEscape arg) = none) := by
  unfold Faithful shellEscape
  by_cases hmeta : arg.any isShellMeta = true
  · have hrun : run feed ⟨done, .between⟩ ('"' :: (escapeQuotes arg ++ ['"'])) =
        if quotable arg then some ⟨done, .word .bare arg .none⟩ else none := by
      have hquote : feed ⟨done, .between⟩ '"' = some ⟨done, .word .double [] .none⟩ := rfl
      rw [run, hquote]
      exact run_escapeQuotes done [] arg
    rw [if_pos hmeta, if_pos hmeta, hrun]
    cases hquotable : quotable arg with
    | true => exact Or.inl ⟨rfl, rfl⟩
    | false => exact Or.inr ⟨Bool.false_ne_true, Or.inr (Or.inr rfl)⟩
  · rw [if_neg hmeta, if_neg hmeta]
    cases arg with
    | nil => exact Or.inr ⟨by decide, Or.inl rfl⟩
    | cons c cs =>
      have hbare := run_bare done [] (Bool.eq_false_iff.mpr hmeta)
      have hc : isShellMeta c = false := by
        rw [List.any_cons, Bool.or_eq_true, not_or] at hmeta
        exact Bool.eq_false_iff.mpr hmeta.1
      by_cases hhash : c = '#'
      · refine Or.inr ⟨by simp [plain, hhash], Or.inr ?_⟩
        rw [run, feed_between done hc, if_pos hhash]
        exact (run_comment done cs).symm
      · by_cases htilde : c = '~'
        · refine Or.inr ⟨by simp [plain, htilde], Or.inr (Or.inr ?_)⟩
          rw [run, feed_between done hc, if_neg hhash, if_pos htilde]
          rfl
        · have hrun : run feed ⟨done, .between⟩ (c :: cs) =
              run feed ⟨done, .word .bare [] .none⟩ (c :: cs) := by
            rw [run, run, feed_between done hc, if_neg hhash, if_neg htilde]
          have hplain : plain (c :: cs) = (c :: cs).all fun d ↦ !isOperator d := by
            simp [plain, hhash, htilde]
          rw [hrun, hbare, hplain]
          cases (c :: cs).all fun d ↦ !isOperator d with
          | true => exact Or.inl ⟨rfl, rfl⟩
          | false => exact Or.inr ⟨Bool.false_ne_true, Or.inr (Or.inr rfl)⟩

/-! ### The command line -/

/-- What comes after the first argument. -/
def commandLineTail : List Text → Text
  | [] => []
  | arg :: args => ' ' :: commandLine (arg :: args)

theorem commandLine_cons (arg : Text) (args : List Text) :
    commandLine (arg :: args) = shellEscape arg ++ commandLineTail args := by
  cases args <;> simp [commandLine, commandLineTail, List.intercalate]

theorem wordsFrom_commandLineTail (done : List Text) (args : List Text) :
    wordsFrom ⟨done, .between⟩ (commandLineTail args) =
      wordsFrom ⟨done, .between⟩ (commandLine args) := by
  cases args with
  | nil => rfl
  | cons arg args =>
    rw [commandLineTail, wordsFrom_cons]
    rfl

/-- The rest of the line after an argument that is a word. -/
theorem wordsFrom_cons_of_faithful (done : List Text) {arg : Text} (harg : Faithful arg)
    (args : List Text) :
    wordsFrom ⟨done, .between⟩ (commandLine (arg :: args)) =
      wordsFrom ⟨done ++ [arg], .between⟩ (commandLine args) := by
  have hrun : run feed ⟨done, .between⟩ (shellEscape arg) =
      some ⟨done, .word .bare arg .none⟩ :=
    (run_shellEscape done arg).elim And.right fun h ↦ absurd harg h.1
  rw [commandLine_cons, wordsFrom_append, hrun, Option.bind_some]
  cases args with
  | nil => rfl
  | cons arg' args =>
    rw [commandLineTail, wordsFrom_cons]
    rfl

theorem wordsFrom_comment (done : List Text) (text : Text) :
    wordsFrom ⟨done, .comment⟩ text = some done ∨ wordsFrom ⟨done, .comment⟩ text = none := by
  unfold wordsFrom
  rcases run_comment done text with h | h
  · exact Or.inr (by rw [h, Option.bind_none])
  · exact Or.inl (by rw [h, Option.bind_some, finish])

/-- The rest of the line after one that is not: its words, or no more words, or none at all. -/
theorem wordsFrom_cons_of_not_faithful (done : List Text) {arg : Text} (harg : ¬ Faithful arg)
    (args : List Text) :
    wordsFrom ⟨done, .between⟩ (commandLine (arg :: args)) =
        wordsFrom ⟨done, .between⟩ (commandLine args) ∨
      wordsFrom ⟨done, .between⟩ (commandLine (arg :: args)) = some done ∨
      wordsFrom ⟨done, .between⟩ (commandLine (arg :: args)) = none := by
  rw [commandLine_cons, wordsFrom_append]
  rcases run_shellEscape done arg with ⟨hfaithful, -⟩ | ⟨-, hempty | hcomment | hnone⟩
  · exact absurd hfaithful harg
  · rw [hempty, run_nil, Option.bind_some]
    exact Or.inl (wordsFrom_commandLineTail done args)
  · rw [hcomment, Option.bind_some]
    exact Or.inr (wordsFrom_comment done (commandLineTail args))
  · rw [hnone]
    exact Or.inr (Or.inr rfl)

theorem wordsFrom_of_faithful (done : List Text) {args : List Text}
    (hargs : ∀ arg ∈ args, Faithful arg) :
    wordsFrom ⟨done, .between⟩ (commandLine args) = some (done ++ args) := by
  induction args generalizing done with
  | nil => simp [commandLine, wordsFrom, finish]
  | cons arg args ih =>
    obtain ⟨harg, hrest⟩ := List.forall_mem_cons.mp hargs
    rw [wordsFrom_cons_of_faithful done harg, ih _ hrest, List.append_assoc]
    rfl

/-- No line has more words than it has arguments. -/
theorem length_le_of_wordsFrom (done : List Text) {args words : List Text}
    (hwords : wordsFrom ⟨done, .between⟩ (commandLine args) = some words) :
    words.length ≤ done.length + args.length := by
  induction args generalizing done with
  | nil =>
    obtain rfl : done = words := Option.some.inj hwords
    exact Nat.le_add_right _ _
  | cons arg args ih =>
    rw [List.length_cons]
    by_cases harg : Faithful arg
    · rw [wordsFrom_cons_of_faithful done harg] at hwords
      have hle := ih _ hwords
      rw [List.length_append, List.length_singleton] at hle
      omega
    · rcases wordsFrom_cons_of_not_faithful done harg args with h | h | h
      · have hle := ih _ (h.symm.trans hwords)
        omega
      · obtain rfl : done = words := Option.some.inj (h.symm.trans hwords)
        omega
      · exact absurd (h.symm.trans hwords) (by simp)

/-- A line with an argument that is not faithful has fewer words. -/
theorem length_lt_of_not_faithful (done : List Text) {args words : List Text}
    (hargs : ¬ ∀ arg ∈ args, Faithful arg)
    (hwords : wordsFrom ⟨done, .between⟩ (commandLine args) = some words) :
    words.length < done.length + args.length := by
  induction args generalizing done with
  | nil => exact absurd (List.forall_mem_nil _) hargs
  | cons arg args ih =>
    rw [List.length_cons]
    by_cases harg : Faithful arg
    · rw [wordsFrom_cons_of_faithful done harg] at hwords
      have hrest : ¬ ∀ arg ∈ args, Faithful arg :=
        fun hrest ↦ hargs (List.forall_mem_cons.mpr ⟨harg, hrest⟩)
      have hlt := ih _ hrest hwords
      rw [List.length_append, List.length_singleton] at hlt
      omega
    · rcases wordsFrom_cons_of_not_faithful done harg args with h | h | h
      · have hle := length_le_of_wordsFrom done (h.symm.trans hwords)
        omega
      · obtain rfl : done = words := Option.some.inj (h.symm.trans hwords)
        omega
      · exact absurd (h.symm.trans hwords) (by simp)

/-- The shell reads the arguments of a command line, and nothing else, exactly when each of them is
faithful. -/
theorem shellWords_commandLine_iff (args : List Text) :
    shellWords (commandLine args) = some args ↔ ∀ arg ∈ args, Faithful arg := by
  constructor
  · intro hwords
    by_contra hargs
    have hlt := length_lt_of_not_faithful [] hargs hwords
    simp at hlt
  · exact fun hargs ↦ wordsFrom_of_faithful [] hargs

/-- A directory with an ampersand in its name. -/
theorem not_shellWords_ampersand :
    shellWords (commandLine ["cat".toList, "/home/R&D".toList]) ≠
      some ["cat".toList, "/home/R&D".toList] := by
  decide

end CosmicSwingset.Setup
