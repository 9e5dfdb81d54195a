import Nmos6502.Proofs.Numerals
import Nmos6502.Proofs.Words

/-!
# The grammar of monitor commands

Every command is its keyword followed by its arguments, and the kinds of the arguments
depend on the keyword only: `Verb.form` is the table of both, with the line of help that a
wrong number of arguments brings up.  `Parses` gives each list of words its one outcome, a
command or the error that is found first, without saying how it is found.  Keywords are in
lower case, registers and digits in either; a word that names an argument need *not* be the
one that the argument would be written with.
-/

namespace Nmos6502.Monitor

/-- The kinds of arguments that commands have. -/
inductive ArgumentKind
  | byte | word | register
  deriving DecidableEq

/-- An argument of a command. -/
inductive Argument
  | byte (value : Byte)
  | word (value : Word)
  | register (register : Register)
  deriving DecidableEq

namespace Argument

/-- The kind that the argument is of. -/
def kind : Argument → ArgumentKind
  | byte _ => .byte
  | word _ => .word
  | register _ => .register

/-- The texts that stand for the argument. -/
def IsSpelled : Argument → String → Prop
  | byte value, text => IsNumber text value.toNat
  | word value, text => IsNumber text value.toNat
  | register .a, text => text = "a" ∨ text = "A"
  | register .x, text => text = "x" ∨ text = "X"
  | register .y, text => text = "y" ∨ text = "Y"

end Argument

/-- The error for a text that stands for no argument of the kind. -/
def ArgumentKind.fault (text : String) : ArgumentKind → CommandError
  | byte => .invalidNumber text 8
  | word => .invalidNumber text 16
  | register => .invalidRegister text

/-- How a command is written. -/
structure Form where
  keyword : String
  /-- The kinds of the arguments, in order. -/
  kinds : List ArgumentKind
  /-- The line of help. -/
  usage : String

/-- The forms of the commands. -/
def Verb.form : Verb → Form
  | setMemory => ⟨"sm", [.word, .byte], "Set Memory:   sm <address> <value>"⟩
  | setBlock =>
      ⟨"sb", [.word, .word, .byte], "Set Block:    sb <address> <count> <value>"⟩
  | setRegister => ⟨"sr", [.register, .byte], "Set Register: sr <reg> <value>"⟩
  | pushStack => ⟨"ps", [.byte], "Push Stack:   ps <value>"⟩
  | quit => ⟨"q", [], "Quit:         q"⟩

theorem Verb.keyword_eq_form (verb : Verb) : verb.keyword = verb.form.keyword := by
  cases verb <;> rfl

theorem Verb.usage_eq_form (verb : Verb) : verb.usage = verb.form.usage := by
  cases verb <;> rfl

/-- The arguments of a command, in order. -/
def Command.arguments : Command → List Argument
  | setMemory address value => [.word address, .byte value]
  | setBlock address count value => [.word address, .word count, .byte value]
  | setRegister register value => [.register register, .byte value]
  | pushStack value => [.byte value]
  | quit => []

/-- The outcome of each list of words.  The first problem decides: the arguments before it
are all spelled as their kinds require. -/
inductive Parses : List String → Except CommandError Command → Prop
  | empty : Parses [] (.error .empty)
  | unknown {keyword : String} {texts : List String}
      (hunknown : ∀ verb : Verb, keyword ≠ verb.form.keyword) :
      Parses (keyword :: texts) (.error (.unknownCommand keyword))
  | missing {verb : Verb} {before : List Argument} {kind : ArgumentKind}
      {after : List ArgumentKind} {texts : List String}
      (hkinds : verb.form.kinds = before.map Argument.kind ++ kind :: after)
      (hbefore : List.Forall₂ Argument.IsSpelled before texts) :
      Parses (verb.form.keyword :: texts) (.error (.missingArgument verb))
  | fault {verb : Verb} {before : List Argument} {kind : ArgumentKind}
      {after : List ArgumentKind} {texts : List String} {text : String} {rest : List String}
      (hkinds : verb.form.kinds = before.map Argument.kind ++ kind :: after)
      (hbefore : List.Forall₂ Argument.IsSpelled before texts)
      (hfault : ∀ argument : Argument, argument.kind = kind → ¬argument.IsSpelled text) :
      Parses (verb.form.keyword :: (texts ++ text :: rest)) (.error (kind.fault text))
  | surplus {verb : Verb} {arguments : List Argument} {texts : List String}
      {extra : String} {rest : List String}
      (hkinds : verb.form.kinds = arguments.map Argument.kind)
      (hspelled : List.Forall₂ Argument.IsSpelled arguments texts) :
      Parses (verb.form.keyword :: (texts ++ extra :: rest)) (.error (.tooManyArguments verb))
  | command {command : Command} {texts : List String}
      (hspelled : List.Forall₂ Argument.IsSpelled command.arguments texts) :
      Parses (command.verb.form.keyword :: texts) (.ok command)

/-! ## Every list of words has an outcome -/

/-- Whether the words spell arguments of the kinds is decided at the first word that does
not, or where the words or the kinds come to an end. -/
theorem spelled_or_missing_or_fault (kinds : List ArgumentKind) (words : List String) :
    (∃ arguments texts rest, kinds = arguments.map Argument.kind ∧ words = texts ++ rest ∧
      List.Forall₂ Argument.IsSpelled arguments texts) ∨
    (∃ before kind after, kinds = before.map Argument.kind ++ kind :: after ∧
      List.Forall₂ Argument.IsSpelled before words) ∨
    (∃ before kind after texts text rest,
      kinds = before.map Argument.kind ++ kind :: after ∧ words = texts ++ text :: rest ∧
      List.Forall₂ Argument.IsSpelled before texts ∧
      ∀ argument : Argument, argument.kind = kind → ¬argument.IsSpelled text) := by
  induction kinds generalizing words with
  | nil => exact .inl ⟨[], [], words, rfl, rfl, .nil⟩
  | cons kind kinds ih =>
      cases words with
      | nil => exact .inr (.inl ⟨[], kind, kinds, rfl, .nil⟩)
      | cons text words =>
          by_cases hgood : ∃ argument : Argument,
              argument.kind = kind ∧ argument.IsSpelled text
          · obtain ⟨argument, rfl, hspelled⟩ := hgood
            rcases ih words with ⟨arguments, texts, rest, rfl, rfl, hrest⟩ |
              ⟨before, kind, after, rfl, hbefore⟩ |
              ⟨before, kind, after, texts, text, rest, rfl, rfl, hbefore, hfault⟩
            · exact .inl ⟨argument :: arguments, text :: texts, rest, rfl, rfl,
                .cons hspelled hrest⟩
            · exact .inr (.inl ⟨argument :: before, kind, after, rfl,
                .cons hspelled hbefore⟩)
            · exact .inr (.inr ⟨argument :: before, kind, after, _ :: texts, text, rest, rfl,
                rfl, .cons hspelled hbefore, hfault⟩)
          · exact .inr (.inr ⟨[], kind, kinds, [], text, words, rfl, rfl, .nil,
              fun argument hkind hspelled => hgood ⟨argument, hkind, hspelled⟩⟩)

theorem Command.exists_of_kinds {verb : Verb} {arguments : List Argument}
    (hkinds : verb.form.kinds = arguments.map Argument.kind) :
    ∃ command : Command, command.verb = verb ∧ command.arguments = arguments := by
  cases verb with
  | quit =>
      obtain rfl : arguments = [] := by simpa [Verb.form] using hkinds
      exact ⟨.quit, rfl, rfl⟩
  | pushStack =>
      match arguments, hkinds with
      | [.byte value], _ => exact ⟨.pushStack value, rfl, rfl⟩
  | setMemory =>
      match arguments, hkinds with
      | [.word address, .byte value], _ => exact ⟨.setMemory address value, rfl, rfl⟩
  | setRegister =>
      match arguments, hkinds with
      | [.register register, .byte value], _ => exact ⟨.setRegister register value, rfl, rfl⟩
  | setBlock =>
      match arguments, hkinds with
      | [.word address, .word count, .byte value], _ =>
          exact ⟨.setBlock address count value, rfl, rfl⟩

theorem exists_parses (words : List String) : ∃ outcome, Parses words outcome := by
  cases words with
  | nil => exact ⟨_, .empty⟩
  | cons keyword words =>
      by_cases hknown : ∃ verb : Verb, keyword = verb.form.keyword
      · obtain ⟨verb, rfl⟩ := hknown
        rcases spelled_or_missing_or_fault verb.form.kinds words with
          ⟨arguments, texts, rest, hkinds, rfl, hspelled⟩ |
          ⟨before, kind, after, hkinds, hbefore⟩ |
          ⟨before, kind, after, texts, text, rest, hkinds, rfl, hbefore, hfault⟩
        · cases rest with
          | nil =>
              obtain ⟨command, rfl, rfl⟩ := Command.exists_of_kinds hkinds
              rw [List.append_nil]
              exact ⟨_, .command hspelled⟩
          | cons extra rest => exact ⟨_, .surplus hkinds hspelled⟩
        · exact ⟨_, .missing hkinds hbefore⟩
        · exact ⟨_, .fault hkinds hbefore hfault⟩
      · exact ⟨_, .unknown (not_exists.1 hknown)⟩

/-! ## Reading arguments of any kinds -/

/-- The argument of the kind that the text stands for. -/
def ArgumentKind.read? (text : String) : ArgumentKind → Option Argument
  | byte => (number? 8 text).map fun n => .byte (UInt8.ofNat n)
  | word => (number? 16 text).map fun n => .word (UInt16.ofNat n)
  | register => (Register.ofName text).toOption.map .register

theorem Register.ofName_of_isSpelled {register : Register} {text : String}
    (hspelled : (Argument.register register).IsSpelled text) :
    ofName text = .ok register := by
  cases register with
  | _ => rcases hspelled with rfl | rfl <;> decide

theorem Register.isSpelled_of_ofName {register : Register} {text : String}
    (hname : ofName text = .ok register) : (Argument.register register).IsSpelled text := by
  rw [ofName] at hname
  split at hname
  · next ha => cases hname; exact ha
  · split at hname
    · next hx => cases hname; exact hx
    · split at hname
      · next hy => cases hname; exact hy
      · cases hname

theorem Register.eq_of_ofName_error {text : String} {e : CommandError}
    (hname : ofName text = .error e) : e = .invalidRegister text := by
  rw [ofName] at hname
  split_ifs at hname
  cases hname
  rfl

theorem ArgumentKind.read?_of_isSpelled {argument : Argument} {text : String}
    (hspelled : argument.IsSpelled text) : argument.kind.read? text = some argument := by
  cases argument with
  | byte value =>
      have hnumber := (number?_eq_some_iff 8 text _).2 ⟨hspelled, value.toNat_lt⟩
      simp [Argument.kind, read?, hnumber]
  | word value =>
      have hnumber := (number?_eq_some_iff 16 text _).2 ⟨hspelled, value.toNat_lt⟩
      simp [Argument.kind, read?, hnumber]
  | register register =>
      simp [Argument.kind, read?, Register.ofName_of_isSpelled hspelled, Except.toOption]

theorem ArgumentKind.isSpelled_of_read? {kind : ArgumentKind} {argument : Argument}
    {text : String} (hread : kind.read? text = some argument) :
    argument.kind = kind ∧ argument.IsSpelled text := by
  cases kind with
  | byte =>
      obtain ⟨n, hnumber, rfl⟩ := Option.map_eq_some_iff.1 hread
      obtain ⟨hspelled, hn⟩ := (number?_eq_some_iff 8 text n).1 hnumber
      refine ⟨rfl, ?_⟩
      rw [Argument.IsSpelled, UInt8.toNat_ofNat_of_lt' hn]
      exact hspelled
  | word =>
      obtain ⟨n, hnumber, rfl⟩ := Option.map_eq_some_iff.1 hread
      obtain ⟨hspelled, hn⟩ := (number?_eq_some_iff 16 text n).1 hnumber
      refine ⟨rfl, ?_⟩
      rw [Argument.IsSpelled, UInt16.toNat_ofNat_of_lt' hn]
      exact hspelled
  | register =>
      obtain ⟨register, hregister, rfl⟩ := Option.map_eq_some_iff.1 hread
      cases hname : Register.ofName text with
      | ok other =>
          rw [hname] at hregister
          cases hregister
          exact ⟨rfl, Register.isSpelled_of_ofName hname⟩
      | error e =>
          rw [hname] at hregister
          cases hregister

/-- Reads an argument of the kind off the words. -/
def readArgument (verb : Verb) (kind : ArgumentKind) :
    List String → Except CommandError (Argument × List String)
  | [] => .error (.missingArgument verb)
  | text :: rest =>
      match kind.read? text with
      | none => .error (kind.fault text)
      | some argument => .ok (argument, rest)

/-- Reads arguments of the kinds, and tells the words left over. -/
def readArguments (verb : Verb) :
    List ArgumentKind → List String → Except CommandError (List Argument × List String)
  | [], words => .ok ([], words)
  | kind :: kinds, words => do
      let (argument, rest) ← readArgument verb kind words
      let (arguments, left) ← readArguments verb kinds rest
      .ok (argument :: arguments, left)

theorem readArgument_cons {verb : Verb} {argument : Argument} {text : String}
    (hspelled : argument.IsSpelled text) (words : List String) :
    readArgument verb argument.kind (text :: words) = .ok (argument, words) := by
  rw [readArgument, ArgumentKind.read?_of_isSpelled hspelled]

theorem readArgument_fault {verb : Verb} {kind : ArgumentKind} {text : String}
    (hfault : ∀ argument : Argument, argument.kind = kind → ¬argument.IsSpelled text)
    (words : List String) :
    readArgument verb kind (text :: words) = .error (kind.fault text) := by
  rw [readArgument]
  cases hread : kind.read? text with
  | none => rfl
  | some argument =>
      obtain ⟨hkind, hspelled⟩ := ArgumentKind.isSpelled_of_read? hread
      exact absurd hspelled (hfault argument hkind)

/-- Words that spell arguments are read, and reading goes on behind them. -/
theorem readArguments_append (verb : Verb) {before : List Argument} {texts : List String}
    (hbefore : List.Forall₂ Argument.IsSpelled before texts) (kinds : List ArgumentKind)
    (words : List String) :
    readArguments verb (before.map Argument.kind ++ kinds) (texts ++ words) =
      (readArguments verb kinds words).map fun (arguments, left) =>
        (before ++ arguments, left) := by
  induction hbefore with
  | nil =>
      change readArguments verb kinds words = _
      cases readArguments verb kinds words <;> rfl
  | @cons argument text before texts hspelled hbefore ih =>
      rw [List.map_cons, List.cons_append, List.cons_append, readArguments,
        readArgument_cons hspelled]
      change (readArguments verb (before.map Argument.kind ++ kinds) (texts ++ words) >>= _) = _
      rw [ih]
      cases readArguments verb kinds words <;> rfl

/-! ## The command reader is such a reader -/

/-- Numbers of both sizes are read in one way. -/
theorem map_takeNumber {kind : ArgumentKind} {bits : Nat} {make : Nat → Argument}
    (hread : ∀ text, kind.read? text = (number? bits text).map make)
    (hfault : ∀ text, kind.fault text = .invalidNumber text bits)
    (verb : Verb) (words : List String) :
    (takeNumber verb bits words).map (fun (n, rest) => (make n, rest)) =
      readArgument verb kind words := by
  cases words with
  | nil => rfl
  | cons text rest =>
      rw [readArgument, hread, hfault, takeNumber, takeArgument]
      cases hnumber : number? bits text with
      | none => simp [bind, Except.bind, hnumber, Except.map]
      | some n => simp [bind, Except.bind, hnumber, Except.map]

theorem map_takeByte (verb : Verb) (words : List String) :
    (takeByte verb words).map (fun (value, rest) => (Argument.byte value, rest)) =
      readArgument verb .byte words := by
  have hnumber := @map_takeNumber .byte _ _ (fun _ => rfl) (fun _ => rfl) verb words
  rw [← hnumber, takeByte]
  cases takeNumber verb 8 words <;> rfl

theorem map_takeWord (verb : Verb) (words : List String) :
    (takeWord verb words).map (fun (value, rest) => (Argument.word value, rest)) =
      readArgument verb .word words := by
  have hnumber := @map_takeNumber .word _ _ (fun _ => rfl) (fun _ => rfl) verb words
  rw [← hnumber, takeWord]
  cases takeNumber verb 16 words <;> rfl

theorem map_takeRegister (verb : Verb) (words : List String) :
    (takeRegister verb words).map (fun (register, rest) => (Argument.register register, rest)) =
      readArgument verb .register words := by
  cases words with
  | nil => rfl
  | cons text rest =>
      rw [readArgument, ArgumentKind.read?, takeRegister, takeArgument]
      cases hname : Register.ofName text with
      | error e =>
          cases Register.eq_of_ofName_error hname
          simp [bind, Except.bind, hname, Except.map, Except.toOption, ArgumentKind.fault]
      | ok register => simp [bind, Except.bind, hname, Except.map, Except.toOption]

/-- The reader of a verb makes commands of that verb, and does it by reading arguments of
its kinds. -/
theorem map_ofArguments (verb : Verb) (words : List String) :
    (Command.ofArguments verb words).map (fun (command, left) =>
        (command.verb, command.arguments, left)) =
      (readArguments verb verb.form.kinds words).map (fun (arguments, left) =>
        (verb, arguments, left)) := by
  cases verb with
  | quit => rfl
  | pushStack =>
      simp only [Verb.form, readArguments, Command.ofArguments, ← map_takeByte]
      cases takeByte .pushStack words <;> rfl
  | setMemory =>
      simp only [Verb.form, readArguments, Command.ofArguments, ← map_takeByte, ← map_takeWord]
      rcases takeWord .setMemory words with e | ⟨address, rest⟩
      · rfl
      · simp only [bind, Except.bind, Except.map]
        cases takeByte .setMemory rest <;> rfl
  | setRegister =>
      simp only [Verb.form, readArguments, Command.ofArguments, ← map_takeByte,
        ← map_takeRegister]
      rcases takeRegister .setRegister words with e | ⟨register, rest⟩
      · rfl
      · simp only [bind, Except.bind, Except.map]
        cases takeByte .setRegister rest <;> rfl
  | setBlock =>
      simp only [Verb.form, readArguments, Command.ofArguments, ← map_takeByte, ← map_takeWord]
      rcases takeWord .setBlock words with e | ⟨address, rest⟩
      · rfl
      · simp only [bind, Except.bind, Except.map]
        rcases takeWord .setBlock rest with e | ⟨count, rest⟩
        · rfl
        · simp only
          cases takeByte .setBlock rest <;> rfl

theorem Command.kinds_verb (command : Command) :
    command.verb.form.kinds = command.arguments.map Argument.kind := by
  cases command <;> rfl

theorem Command.eq_of_verb_of_arguments {command other : Command}
    (hverb : command.verb = other.verb) (harguments : command.arguments = other.arguments) :
    command = other := by
  cases command <;> cases other <;> simp_all [verb, arguments]

/-! ## The outcome is the one that the grammar gives -/

theorem ofWords_keyword (verb : Verb) (words : List String) :
    Command.ofWords (verb.form.keyword :: words) = (do
      let (command, rest) ← Command.ofArguments verb words
      if rest.isEmpty then .ok command else .error (.tooManyArguments verb)) := by
  rw [← verb.keyword_eq_form, Command.ofWords, (Verb.ofKeyword?_eq_some_iff _ verb).2 rfl]

theorem ofArguments_of_ok {command : Command} {words left : List String}
    (hread : readArguments command.verb command.verb.form.kinds words =
      .ok (command.arguments, left)) :
    Command.ofArguments command.verb words = .ok (command, left) := by
  have hmap := map_ofArguments command.verb words
  rw [hread] at hmap
  cases hresult : Command.ofArguments command.verb words with
  | error e =>
      rw [hresult] at hmap
      cases hmap
  | ok result =>
      obtain ⟨other, rest⟩ := result
      rw [hresult] at hmap
      obtain ⟨hverb, harguments, rfl⟩ : other.verb = command.verb ∧
          other.arguments = command.arguments ∧ rest = left := by
        simpa [Except.map] using hmap
      rw [Command.eq_of_verb_of_arguments hverb harguments]

theorem ofArguments_of_error {verb : Verb} {words : List String} {e : CommandError}
    (hread : readArguments verb verb.form.kinds words = .error e) :
    Command.ofArguments verb words = .error e := by
  have hmap := map_ofArguments verb words
  rw [hread] at hmap
  cases hresult : Command.ofArguments verb words with
  | error other =>
      rw [hresult] at hmap
      cases hmap
      rfl
  | ok result =>
      rw [hresult] at hmap
      cases hmap

theorem readArguments_of_spelled (verb : Verb) {arguments : List Argument} {texts : List String}
    (hspelled : List.Forall₂ Argument.IsSpelled arguments texts) (left : List String) :
    readArguments verb (arguments.map Argument.kind) (texts ++ left) = .ok (arguments, left) := by
  have hread := readArguments_append verb hspelled [] left
  rw [List.append_nil] at hread
  rw [hread]
  simp [readArguments, Except.map]

theorem ofWords_of_parses {words : List String} {outcome : Except CommandError Command}
    (h : Parses words outcome) : Command.ofWords words = outcome := by
  cases h with
  | empty => rfl
  | @unknown keyword texts hunknown =>
      have hnone : Verb.ofKeyword? keyword = none := by
        rw [Option.eq_none_iff_forall_ne_some]
        intro verb hverb
        rw [Verb.ofKeyword?_eq_some_iff, verb.keyword_eq_form] at hverb
        exact hunknown verb hverb
      rw [Command.ofWords, hnone]
  | @missing verb before kind after texts hkinds hbefore =>
      have hread := readArguments_append verb hbefore (kind :: after) []
      rw [← hkinds, List.append_nil] at hread
      rw [ofWords_keyword, ofArguments_of_error (hread.trans rfl)]
      rfl
  | @fault verb before kind after texts text rest hkinds hbefore hfault =>
      have hread := readArguments_append verb hbefore (kind :: after) (text :: rest)
      rw [← hkinds, readArguments, readArgument_fault hfault] at hread
      rw [ofWords_keyword, ofArguments_of_error (hread.trans rfl)]
      rfl
  | @surplus verb arguments texts extra rest hkinds hspelled =>
      obtain ⟨command, rfl, rfl⟩ := Command.exists_of_kinds hkinds
      have hread := readArguments_of_spelled command.verb hspelled (extra :: rest)
      rw [← command.kinds_verb] at hread
      rw [ofWords_keyword, ofArguments_of_ok hread]
      rfl
  | @command command texts hspelled =>
      have hread := readArguments_of_spelled command.verb hspelled []
      rw [← command.kinds_verb, List.append_nil] at hread
      rw [ofWords_keyword, ofArguments_of_ok hread]
      rfl

theorem ofWords_eq_iff (words : List String) (outcome : Except CommandError Command) :
    Command.ofWords words = outcome ↔ Parses words outcome := by
  constructor
  · rintro rfl
    obtain ⟨outcome, h⟩ := exists_parses words
    rw [ofWords_of_parses h]
    exact h
  · exact ofWords_of_parses

/-- The outcome of a line is the one that the grammar gives its words.  In particular a line
is read as a command exactly when its words are the keyword and spellings of the arguments of
that command, whatever the marks, the leading zeros and the cases of the digits.  A number of
arguments is refused with the line of help of the table. -/
theorem parse_eq_iff (line : String) :
    (∀ outcome, Command.parse line = outcome ↔
      ∃ words : List String, Words.Separated line.toList (words.map String.toList) ∧
        Parses words outcome) ∧
    (∀ command : Command, Command.parse line = .ok command ↔
      ∃ texts : List String,
        Words.Separated line.toList
          ((command.verb.form.keyword :: texts).map String.toList) ∧
        List.Forall₂ Argument.IsSpelled command.arguments texts) ∧
    ∀ verb : Verb,
      (CommandError.missingArgument verb).message =
        "not enough arguments: " ++ verb.form.usage ∧
      (CommandError.tooManyArguments verb).message =
        "too many arguments: " ++ verb.form.usage := by
  have hparse : ∀ outcome, Command.parse line = outcome ↔
      ∃ words : List String, Words.Separated line.toList (words.map String.toList) ∧
        Parses words outcome := by
    intro outcome
    rw [Command.parse, ofWords_eq_iff]
    constructor
    · intro h
      exact ⟨_, (Words.ofLine_eq_iff line _).1 rfl, h⟩
    · rintro ⟨words, hwords, h⟩
      rw [(Words.ofLine_eq_iff line words).2 hwords]
      exact h
  refine ⟨hparse, fun command => (hparse _).trans ?_, ?_⟩
  · constructor
    · rintro ⟨words, hwords, h⟩
      cases h with
      | command hspelled => exact ⟨_, hwords, hspelled⟩
    · rintro ⟨texts, hwords, hspelled⟩
      exact ⟨_, hwords, .command hspelled⟩
  · intro verb
    rw [← verb.usage_eq_form]
    exact ⟨rfl, rfl⟩

example : Command.parse "\tsb $0200\u00a00X00fF  7f" =
    .ok (.setBlock 0x0200 0x00FF 0x7F) := by
  decide +kernel

end Nmos6502.Monitor
