import CosmicSwingset.Foundation.Transition

/-!
# The words of a shell command

How the POSIX shell reads the words of a command: blanks delimit words; backslashes, single and
double quotes take the meaning from characters; a `#` where a word may begin starts a comment.
`words` gives the words of a text after quote removal. It gives none for a text that is not just the
words of one command, because it has an operator or ends inside quotes, and for one whose words are
not there in the text, because a parameter, a command, a tilde or a pattern is to be expanded. A `$`
that no parameter follows stays (what it means is not specified, and in some shells `$[` begins an
expansion). Reserved words and assignments are for the command to tell from its other words.

The shell is a machine that is fed the text character by character (`Shell.feed`), so what is known
about the parts of a text is put together with `run_append`.
-/

set_option autoImplicit false
set_option relaxedAutoImplicit false

namespace CosmicSwingset.Foundation

abbrev Text := List Char

namespace Shell

inductive Quotes
  | bare
  | double
  | single
  deriving DecidableEq

/-- A character whose meaning depends on the next one. -/
inductive Pending
  | none
  | backslash
  | dollar
  deriving DecidableEq

/-- * `between`: a word may begin.
* `escaped`: where a word may begin there was a backslash.
* `word`: in a word, with what of it has been read. -/
inductive Mode
  | between
  | escaped
  | comment
  | word (quotes : Quotes) (text : Text) (pending : Pending)
  deriving DecidableEq

end Shell

/-- What the shell has made of the text so far. -/
structure Shell where
  done : List Text
  mode : Shell.Mode
  deriving DecidableEq

namespace Shell

def fresh : Shell := ⟨[], .between⟩

/-- The name of a parameter, `{` or `(`, after which a `$` is an expansion. -/
def startsExpansion (c : Char) : Bool :=
  c.isAlphanum || ['_', '@', '*', '#', '?', '-', '$', '!', '{', '('].contains c

def isBlank (c : Char) : Bool := c = ' ' || c = '\t'

/-- A character of an operator, or the end of a line. -/
def isOperator (c : Char) : Bool := ['&', '|', ';', '<', '>', '(', ')', '\n'].contains c

/-- A character of a pattern. -/
def isPattern (c : Char) : Bool := ['*', '?', '['].contains c

/-- A character in a word, outside quotes. -/
def feedBare (done : List Text) (text : Text) (c : Char) : Option Shell :=
  if isBlank c then some ⟨done ++ [text], .between⟩
  else if isOperator c || isPattern c || c = '\x60' then none
  else if c = '$' then some ⟨done, .word .bare text .dollar⟩
  else if c = '\\' then some ⟨done, .word .bare text .backslash⟩
  else if c = '"' then some ⟨done, .word .double text .none⟩
  else if c = '\'' then some ⟨done, .word .single text .none⟩
  else some ⟨done, .word .bare (text ++ [c]) .none⟩

/-- A character in double quotes. -/
def feedDouble (done : List Text) (text : Text) (c : Char) : Option Shell :=
  if c = '"' then some ⟨done, .word .bare text .none⟩
  else if c = '\x60' then none
  else if c = '$' then some ⟨done, .word .double text .dollar⟩
  else if c = '\\' then some ⟨done, .word .double text .backslash⟩
  else some ⟨done, .word .double (text ++ [c]) .none⟩

/-- A character after a backslash in double quotes. -/
def feedEscaped (done : List Text) (text : Text) (c : Char) : Shell :=
  if c = '\n' then ⟨done, .word .double text .none⟩
  else if ['$', '\x60', '"', '\\'].contains c then ⟨done, .word .double (text ++ [c]) .none⟩
  else ⟨done, .word .double (text ++ ['\\', c]) .none⟩

/-- The next character. There is no next state where the text is not just words. -/
def feed (s : Shell) (c : Char) : Option Shell :=
  match s.mode with
  | .between =>
    if isBlank c then some s
    else if c = '#' then some ⟨s.done, .comment⟩
    else if c = '~' then none
    else if c = '\\' then some ⟨s.done, .escaped⟩
    else feedBare s.done [] c
  -- a backslash joins its line with the next one
  | .escaped =>
    if c = '\n' then some ⟨s.done, .between⟩ else some ⟨s.done, .word .bare [c] .none⟩
  | .comment => if c = '\n' then none else some s
  | .word .bare text .none => feedBare s.done text c
  | .word .bare text .backslash =>
    if c = '\n' then some ⟨s.done, .word .bare text .none⟩
    else some ⟨s.done, .word .bare (text ++ [c]) .none⟩
  | .word .bare text .dollar =>
    if startsExpansion c then none else feedBare s.done (text ++ ['$']) c
  | .word .double text .none => feedDouble s.done text c
  | .word .double text .backslash => some (feedEscaped s.done text c)
  | .word .double text .dollar =>
    if startsExpansion c then none else feedDouble s.done (text ++ ['$']) c
  | .word .single text _ =>
    if c = '\'' then some ⟨s.done, .word .bare text .none⟩
    else some ⟨s.done, .word .single (text ++ [c]) .none⟩

/-- The words at the end of the text, which may not be inside quotes or after a backslash. -/
def finish (s : Shell) : Option (List Text) :=
  match s.mode with
  | .between | .comment => some s.done
  | .word .bare text .none => some (s.done ++ [text])
  | .word .bare text .dollar => some (s.done ++ [text ++ ['$']])
  | _ => none

/-- The words of a text that is read on from a state. -/
def wordsFrom (s : Shell) (text : Text) : Option (List Text) :=
  (run feed s text).bind finish

/-! ### Reading on -/

theorem wordsFrom_append (s : Shell) (text text' : Text) :
    s.wordsFrom (text ++ text') = (run feed s text).bind fun s' ↦ s'.wordsFrom text' := by
  rw [wordsFrom, run_append, Option.bind_assoc]
  rfl

theorem wordsFrom_cons (s : Shell) (c : Char) (text : Text) :
    s.wordsFrom (c :: text) = (s.feed c).bind fun s' ↦ s'.wordsFrom text := by
  rw [wordsFrom, run, Option.bind_assoc]
  rfl

/-- A comment goes on to the end of its line. -/
theorem run_comment (done : List Text) (text : Text) :
    run feed ⟨done, .comment⟩ text = none ∨
      run feed ⟨done, .comment⟩ text = some ⟨done, .comment⟩ := by
  induction text with
  | nil => exact Or.inr rfl
  | cons c text ih =>
    by_cases hc : c = '\n'
    · exact Or.inl (by simp [run, feed, hc])
    · have hstep : feed ⟨done, .comment⟩ c = some ⟨done, .comment⟩ := if_neg hc
      rw [run, hstep]
      exact ih

end Shell

/-- The words of a command, if the text is just that. -/
def shellWords (text : Text) : Option (List Text) := Shell.fresh.wordsFrom text

example : shellWords "ls -l 'a b'\"\\$c\" # d".toList =
    some ["ls".toList, "-l".toList, "a b$c".toList] := by decide

end CosmicSwingset.Foundation
