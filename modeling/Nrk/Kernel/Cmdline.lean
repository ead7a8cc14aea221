import Nrk.Lib.Longest

/-! # The kernel command line (`kernel/src/cmdline.rs`)

`CommandLineArguments::from_str` over any lexer that matches `CmdToken`'s rules longest, as the
lexer logos derives does, in a kernel built with `shmem` and `ethernet`. -/

namespace Nrk.Cmdline

/-- `CmdToken`. -/
inductive CmdToken where
  | KernelBinary
  | Test
  | Log
  | Mode
  | Transport
  | MachineId
  | Workers
  | InitBinary
  | InitArgs
  | AppArgs
  | Ident
  | KVSeparator
  | LiteralString
  | Error
  deriving DecidableEq, Repr

/-! ## The lexer -/

/-- The characters of `[a-zA-Z0-9\._-]`. -/
def is_ident_char (c : Char) : Bool := c.isAlphanum || c == '.' || c == '_' || c == '-'

/-- `#[token(text)]`: a match of `text` at the head of the input. -/
def token_len (text input : List Char) : Option ℕ :=
  if text.isPrefixOf input then some text.length else none

/-- `#[regex("./[a-zA-Z]+")]`: a character other than a newline, a slash, and letters. -/
def kernel_binary_len : List Char → Option ℕ
  | c :: '/' :: cs =>
      if c ≠ '\n' ∧ 0 < (cs.takeWhile Char.isAlpha).length then
        some ((cs.takeWhile Char.isAlpha).length + 2)
      else none
  | _ => none

/-- `#[regex("[a-zA-Z0-9\\._-]*")]`. -/
def ident_len (input : List Char) : Option ℕ := some (input.takeWhile is_ident_char).length

/-- What the `LiteralString` regex, `'([^'\\]|\\t|\\u|\\n|[0-9a-zA-Z:.,_=]*|\\')*'`, matches after
its opening quote: characters other than a quote or a backslash and the escapes `\t`, `\u`,
`\n` and `\'`, up to and including the closing quote. -/
def literal_body : List Char → Option ℕ
  | [] => none
  | '\'' :: _ => some 1
  | '\\' :: c :: cs =>
      if c = 't' ∨ c = 'u' ∨ c = 'n' ∨ c = '\'' then (literal_body cs).map (· + 2) else none
  | '\\' :: [] => none
  | _ :: cs => (literal_body cs).map (· + 1)

/-- The `LiteralString` regex. -/
def literal_len : List Char → Option ℕ
  | '\'' :: cs => (literal_body cs).map (· + 1)
  | _ => none

/-- The `Error` variant's `#[regex(r"[ ]+", logos::skip)]`. -/
def spaces_len (input : List Char) : Option ℕ := some (input.takeWhile (· == ' ')).length

/-- The `#[token]`s of `CmdToken`, with their texts. -/
def keywords : List (List Char × CmdToken) :=
  [("test".toList, .Test), ("log".toList, .Log), ("mode".toList, .Mode),
    ("transport".toList, .Transport), ("mid".toList, .MachineId), ("workers".toList, .Workers),
    ("init".toList, .InitBinary), ("initargs".toList, .InitArgs), ("appcmd".toList, .AppArgs),
    ("=".toList, .KVSeparator)]

/-- The rule of a `#[token]`. -/
def keyword_rule (k : List Char × CmdToken) : Longest.Rule CmdToken := ⟨token_len k.1, k.2⟩

/-- The `#[regex]`es of `CmdToken`. -/
def regex_rules : List (Longest.Rule CmdToken) :=
  [⟨kernel_binary_len, .KernelBinary⟩, ⟨ident_len, .Ident⟩, ⟨literal_len, .LiteralString⟩,
    ⟨spaces_len, .Error⟩]

/-- The rules of `CmdToken`: the `#[token]`s come first, since logos prefers a token to a regex
match of the same length. -/
def rules : List (Longest.Rule CmdToken) := keywords.map keyword_rule ++ regex_rules

/-! ## `from_str` -/

/-- `Mode`. -/
inductive Mode where
  | Native
  | Controller
  | Client
  deriving DecidableEq, Repr

/-- `From<&str> for Mode`. -/
def Mode.from (s : List Char) : Mode :=
  if s = "native".toList then .Native
  else if s = "controller".toList then .Controller
  else if s = "client".toList then .Client
  else .Native

/-- `Transport`. -/
inductive Transport where
  | Shmem
  | Ethernet
  deriving DecidableEq, Repr

/-- `From<&str> for Transport`. -/
def Transport.from (s : List Char) : Transport :=
  if s = "ethernet".toList then .Ethernet
  else if s = "shmem".toList then .Shmem
  else .Shmem

/-- `CommandLineArguments`. -/
structure CommandLineArguments where
  log_filter : List Char
  init_binary : List Char
  init_args : List Char
  app_args : List Char
  test : Option (List Char)
  mode : Mode
  transport : Transport
  machine_id : ℕ
  workers : ℕ
  deriving DecidableEq, Repr

/-- `Default for CommandLineArguments`. -/
def CommandLineArguments.default : CommandLineArguments where
  log_filter := "info".toList
  init_binary := "init".toList
  init_args := []
  app_args := []
  test := none
  mode := .Native
  transport := .Shmem
  machine_id := 0
  workers := 1

/-- `str::parse::<u8>`: an optional `+` and decimal digits of a value below 256. -/
def parse_u8 (s : List Char) : Option ℕ :=
  let digits := match s with
    | '+' :: ds => ds
    | ds => ds
  if digits ≠ [] ∧ digits.all Char.isDigit then
    let v := digits.foldl (fun acc d => acc * 10 + (d.toNat - '0'.toNat)) 0
    if v < 256 then some v else none
  else none

/-- The arms of `from_str` that give the key `prev` a value; `none` for the arm that skips it. -/
def assign (prev : CmdToken) (value : List Char) (args : CommandLineArguments) :
    Option CommandLineArguments :=
  match prev with
  | .Log => some { args with log_filter := value }
  | .Mode => some { args with mode := Mode.from value }
  | .Transport => some { args with transport := Transport.from value }
  | .InitBinary => some { args with init_binary := value }
  | .InitArgs => some { args with init_args := value }
  | .MachineId => some { args with machine_id := (parse_u8 value).getD 0 }
  | .Workers => some { args with workers := (parse_u8 value).getD 1 }
  | .AppArgs => some { args with app_args := value }
  | .Test => some { args with test := some value }
  | _ => none

/-- One turn of `from_str`'s loop, on a token and its slice: the arguments and `prev`. -/
def parse_token (st : CommandLineArguments × CmdToken) (tok : CmdToken × List Char) :
    CommandLineArguments × CmdToken :=
  match tok.1 with
  | .Log | .Mode | .Transport | .Test | .InitBinary | .InitArgs | .AppArgs | .MachineId
  | .Workers => (st.1, tok.1)
  | .Ident =>
      match assign st.2 tok.2 st.1 with
      | some args => (args, .Error)
      | none => st
  | .LiteralString =>
      -- the quotes stripped; this arm has no case for `Mode` and `Transport`
      match st.2 with
      | .Mode | .Transport => st
      | prev =>
          match assign prev (tok.2.drop 1).dropLast st.1 with
          | some args => (args, .Error)
          | none => st
  -- a misplaced `=` is only logged
  | .KernelBinary | .KVSeparator | .Error => st

/-- `CommandLineArguments::from_str`, given `CmdToken::lexer`, which logos derives outside the
kernel: the tokens of a string and their slices. -/
def from_str (lexer : List Char → List (CmdToken × List Char)) (args : List Char) :
    CommandLineArguments :=
  ((lexer args).foldl parse_token (.default, .Error)).1

/-! ## What the command line says -/

/-- The keys of a setting. -/
inductive Key where
  | log
  | init
  | initargs
  | appcmd
  | test
  | mid
  | workers
  | mode
  | transport
  deriving DecidableEq, Repr

/-- The key as written. -/
def Key.text : Key → List Char
  | .log => "log".toList
  | .init => "init".toList
  | .initargs => "initargs".toList
  | .appcmd => "appcmd".toList
  | .test => "test".toList
  | .mid => "mid".toList
  | .workers => "workers".toList
  | .mode => "mode".toList
  | .transport => "transport".toList

/-- The value of a setting: an identifier, or a quoted literal. -/
inductive Value where
  | ident (v : List Char)
  | literal (w : List Char)
  deriving DecidableEq, Repr

/-- The value as written. -/
def Value.text : Value → List Char
  | .ident v => v
  | .literal w => '\'' :: w ++ ['\'']

/-- The value without its quotes. -/
def Value.content : Value → List Char
  | .ident v => v
  | .literal w => w

/-- The characters of `[0-9a-zA-Z:.,_= -]`. -/
def is_literal_char (c : Char) : Bool :=
  c.isAlphanum || c == ':' || c == '.' || c == ',' || c == '_' || c == '=' || c == ' ' ||
    c == '-'

/-- A nonempty identifier over `[a-zA-Z0-9._-]`, or a quoted literal over `[0-9a-zA-Z:.,_= -]`. -/
def Value.wellFormed : Value → Bool
  | .ident v => !v.isEmpty && v.all is_ident_char
  | .literal w => w.all is_literal_char

/-- A setting `key=value`. -/
structure Setting where
  key : Key
  value : Value
  deriving DecidableEq, Repr

/-- The setting as written. -/
def Setting.text (s : Setting) : List Char := s.key.text ++ '=' :: s.value.text

/-- The command line `./kernel k₁=v₁ ... kₙ=vₙ`. -/
def render (ss : List Setting) : List Char :=
  "./kernel".toList ++ (ss.map fun s => ' ' :: s.text).flatten

/-- A setting as it should be read: strings are taken as they are, `mid` and `workers` as `u8`
(`0` and `1` when that fails), `mode` and `transport` through their `From<&str>`. -/
def Key.apply : Key → List Char → CommandLineArguments → CommandLineArguments
  | .log, v, a => { a with log_filter := v }
  | .init, v, a => { a with init_binary := v }
  | .initargs, v, a => { a with init_args := v }
  | .appcmd, v, a => { a with app_args := v }
  | .test, v, a => { a with test := some v }
  | .mid, v, a => { a with machine_id := (parse_u8 v).getD 0 }
  | .workers, v, a => { a with workers := (parse_u8 v).getD 1 }
  | .mode, v, a => { a with mode := Mode.from v }
  | .transport, v, a => { a with transport := Transport.from v }

/-- The arguments the settings ask for: the defaults, overridden by each setting in turn. -/
def expected (ss : List Setting) : CommandLineArguments :=
  ss.foldl (fun a s => s.key.apply s.value.content a) .default

/-- Whether `from_str` reads a setting: not an identifier that spells a keyword, nor a quoted
value of `mode` or `transport`. -/
def Setting.read (s : Setting) : Bool :=
  match s.value with
  | .ident v => (keywords.lookup v).isNone
  | .literal _ => !(s.key == .mode || s.key == .transport)

/-! ## Lexing a command line -/

/-- The token a word of identifier characters is lexed as: the keyword it spells, or `Ident`. -/
def word_token (w : List Char) : CmdToken := (keywords.lookup w).getD .Ident

/-- What may follow a word: nothing, or a character that is neither an identifier character
nor a slash. -/
def WordEnd (R : List Char) : Prop := ∀ c R', R = c :: R' → is_ident_char c = false ∧ c ≠ '/'

section Lexing

variable {w R V : List Char}

theorem keywords_text :
    ∀ p ∈ keywords, p.1 = ['='] ∨ (p.1 ≠ [] ∧ ∀ c ∈ p.1, is_ident_char c = true) := by
  -- decided through `List.all`: Batteries decides a `∀ c : Char` over every character
  have h : keywords.all fun p => p.1 = ['='] ∨ (p.1 ≠ [] ∧ p.1.all is_ident_char) := by decide
  simpa only [List.all_eq_true, decide_eq_true_eq] using h

theorem keywords_not_error : ∀ p ∈ keywords, p.2 ≠ .Error := by decide

theorem ident_head {a : Char} {w' : List Char} (hid : ∀ c ∈ a :: w', is_ident_char c = true) :
    a ≠ '/' ∧ a ≠ '\'' ∧ a ≠ ' ' ∧ a ≠ '=' := by
  have ha := hid a List.mem_cons_self
  refine ⟨?_, ?_, ?_, ?_⟩ <;> rintro rfl <;> revert ha <;> decide

theorem token_len_word {p : List Char × CmdToken} (hp : p ∈ keywords) (hw : w ≠ [])
    (hid : ∀ c ∈ w, is_ident_char c = true) (hR : WordEnd R) :
    (token_len p.1 (w ++ R)).getD 0 ≤ w.length ∧
      (p.1 ≠ w → (token_len p.1 (w ++ R)).getD 0 < w.length) := by
  have hpos : 0 < w.length := List.length_pos_of_ne_nil hw
  unfold token_len
  split_ifs with hpre
  swap
  · exact ⟨Nat.zero_le _, fun _ => hpos⟩
  rw [List.isPrefixOf_iff_prefix] at hpre
  simp only [Option.getD_some]
  rcases keywords_text p hp with heq | ⟨-, hidt⟩
  · -- `=` cannot start a word
    obtain ⟨a, w', rfl⟩ := List.exists_cons_of_ne_nil hw
    rw [heq, List.cons_append, List.cons_prefix_cons] at hpre
    exact absurd hpre.1.symm (ident_head hid).2.2.2
  -- a longer keyword would reach the character after the word
  have hle : p.1.length ≤ w.length := by
    by_contra hlt
    rw [Nat.not_le] at hlt
    have hlen := hpre.length_le
    obtain ⟨c, R', rfl⟩ : ∃ c R', R = c :: R' := by
      rcases R with _ | ⟨c, R'⟩
      · simp at hlen; omega
      · exact ⟨c, R', rfl⟩
    have hat := hpre.getElem hlt
    rw [List.getElem_append_right (Nat.le_refl _)] at hat
    simp only [Nat.sub_self, List.getElem_cons_zero] at hat
    have hc := hidt _ (List.getElem_mem hlt)
    rw [hat] at hc
    exact absurd hc (by simp [(hR c R' rfl).1])
  refine ⟨hle, fun hne => lt_of_le_of_ne hle fun hlen => hne ?_⟩
  exact (List.prefix_of_prefix_length_le hpre (List.prefix_append w R) hle).eq_of_length hlen

theorem kernel_binary_len_word (hw : w ≠ []) (hid : ∀ c ∈ w, is_ident_char c = true)
    (hR : WordEnd R) : kernel_binary_len (w ++ R) = none := by
  obtain ⟨a, w', rfl⟩ := List.exists_cons_of_ne_nil hw
  rcases w' with _ | ⟨b, w''⟩
  · rcases R with _ | ⟨c, R'⟩
    · rfl
    · simp [kernel_binary_len, (hR c R' rfl).2]
  · have hid' : ∀ c ∈ b :: w'', is_ident_char c = true :=
      fun c hc => hid c (List.mem_cons_of_mem a hc)
    have hb := (ident_head hid').1
    simp [kernel_binary_len, hb]

theorem ident_len_word (hid : ∀ c ∈ w, is_ident_char c = true) (hR : WordEnd R) :
    ident_len (w ++ R) = some w.length := by
  have hrest : R.takeWhile is_ident_char = [] := by
    rcases R with _ | ⟨c, R'⟩
    · rfl
    · simp [(hR c R' rfl).1]
  rw [ident_len, List.takeWhile_append_of_pos hid, hrest, List.append_nil]

theorem literal_len_word (hw : w ≠ []) (hid : ∀ c ∈ w, is_ident_char c = true) :
    literal_len (w ++ R) = none := by
  obtain ⟨a, w', rfl⟩ := List.exists_cons_of_ne_nil hw
  simp [literal_len, (ident_head hid).2.1]

theorem spaces_len_word (hw : w ≠ []) (hid : ∀ c ∈ w, is_ident_char c = true) :
    spaces_len (w ++ R) = some 0 := by
  obtain ⟨a, w', rfl⟩ := List.exists_cons_of_ne_nil hw
  simp [spaces_len, (ident_head hid).2.2.1]

theorem best_word (hw : w ≠ []) (hid : ∀ c ∈ w, is_ident_char c = true) (hR : WordEnd R) :
    Longest.best rules (w ++ R) = some (word_token w, w.length) := by
  have hpos : 0 < w.length := List.length_pos_of_ne_nil hw
  have hkw := fun p (hp : p ∈ keywords) => token_len_word hp hw hid hR
  -- the regexes other than `Ident` do not match a word
  have hregex : ∀ r ∈ [(⟨literal_len, .LiteralString⟩ : Longest.Rule CmdToken),
      ⟨spaces_len, .Error⟩], (r.len (w ++ R)).getD 0 = 0 := by
    simp [literal_len_word hw hid, spaces_len_word hw hid]
  rcases hlook : keywords.lookup w with _ | t
  · -- not a keyword: every keyword matches less than the word, and `Ident` all of it
    have hne : ∀ p ∈ keywords, p.1 ≠ w := fun p hp heq => by
      have := List.lookup_eq_none_iff.mp hlook p hp
      simp [heq] at this
    have hsplit : rules = (keywords.map keyword_rule ++ [⟨kernel_binary_len, .KernelBinary⟩]) ++
        ⟨ident_len, .Ident⟩ :: [⟨literal_len, .LiteralString⟩, ⟨spaces_len, .Error⟩] := by
      simp [rules, regex_rules]
    rw [word_token, hlook, Option.getD_none]
    refine Longest.best_of_split hsplit (ident_len_word hid hR) hpos (fun r hr => ?_)
      (fun r hr => by rw [hregex r hr]; exact Nat.zero_le _)
    rcases List.mem_append.mp hr with hr | hr
    · obtain ⟨p, hp, rfl⟩ := List.mem_map.mp hr
      exact (hkw p hp).2 (hne p hp)
    · rw [List.mem_singleton.mp hr]
      simpa [kernel_binary_len_word hw hid hR] using hpos
  · -- a keyword: the keywords before it match less, and nothing matches more
    obtain ⟨pre, post, hkeys, hpre⟩ := List.lookup_eq_some_iff.mp hlook
    have hsplit : rules = pre.map keyword_rule ++ keyword_rule (w, t) ::
        (post.map keyword_rule ++ regex_rules) := by
      simp [rules, hkeys]
    have hmem : ∀ p ∈ pre, p ∈ keywords := fun p hp => by simp [hkeys, hp]
    have hmem' : ∀ p ∈ post, p ∈ keywords := fun p hp => by simp [hkeys, hp]
    rw [word_token, hlook, Option.getD_some]
    refine Longest.best_of_split hsplit ?_ hpos (fun r hr => ?_) (fun r hr => ?_)
    · simp [keyword_rule, token_len, List.isPrefixOf_iff_prefix]
    · obtain ⟨p, hp, rfl⟩ := List.mem_map.mp hr
      refine (hkw p (hmem p hp)).2 fun heq => ?_
      have := hpre p hp
      simp [heq] at this
    · rcases List.mem_append.mp hr with hr | hr
      · obtain ⟨p, hp, rfl⟩ := List.mem_map.mp hr
        exact (hkw p (hmem' p hp)).1
      · simp only [regex_rules, List.mem_cons, List.mem_nil_iff, or_false] at hr
        rcases hr with rfl | rfl | rfl | rfl
        · simp [kernel_binary_len_word hw hid hR]
        · simp [ident_len_word hid hR]
        · simp [literal_len_word hw hid]
        · simp [spaces_len_word hw hid]

theorem token_len_of_head_ne {text : List Char} {c : Char} (hne : text ≠ [])
    (hhead : text.head? ≠ some c) : token_len text (c :: V) = none := by
  obtain ⟨a, t, rfl⟩ := List.exists_cons_of_ne_nil hne
  have hac : a ≠ c := fun h => hhead (by rw [h]; rfl)
  simp [token_len, List.isPrefixOf, hac]

theorem token_len_keyword {c : Char} (hc : ∀ p ∈ keywords, p.1.head? ≠ some c)
    {r : Longest.Rule CmdToken} (hr : r ∈ keywords.map keyword_rule) : r.len (c :: V) = none := by
  obtain ⟨p, hp, rfl⟩ := List.mem_map.mp hr
  have hne : p.1 ≠ [] := by
    rcases keywords_text p hp with h | h
    · rw [h]; exact List.cons_ne_nil _ _
    · exact h.1
  exact token_len_of_head_ne hne (hc p hp)

theorem literal_char_facts {c : Char} (h : is_literal_char c = true) :
    c ≠ '\'' ∧ c ≠ '\\' ∧ c ≠ '/' := by
  refine ⟨?_, ?_, ?_⟩ <;> rintro rfl <;> revert h <;> decide

theorem literal_body_cons {c : Char} {cs : List Char} (hq : c ≠ '\'') (hb : c ≠ '\\') :
    literal_body (c :: cs) = (literal_body cs).map (· + 1) := by
  rw [literal_body.eq_def]
  split <;> simp_all

theorem literal_body_plain (hw : ∀ c ∈ w, is_literal_char c = true) :
    literal_body (w ++ '\'' :: R) = some (w.length + 1) := by
  induction w with
  | nil => rfl
  | cons c w ih =>
      obtain ⟨hq, hb, -⟩ := literal_char_facts (hw c List.mem_cons_self)
      rw [List.cons_append, literal_body_cons hq hb,
        ih fun d hd => hw d (List.mem_cons_of_mem c hd)]
      rfl

theorem best_literal (hw : ∀ c ∈ w, is_literal_char c = true) :
    Longest.best rules ('\'' :: (w ++ '\'' :: R)) = some (.LiteralString, w.length + 2) := by
  have hkb : kernel_binary_len ('\'' :: (w ++ '\'' :: R)) = none := by
    rcases w with _ | ⟨a, w'⟩
    · rfl
    · simp [kernel_binary_len, (literal_char_facts (hw a List.mem_cons_self)).2.2]
  have hsplit : rules = (keywords.map keyword_rule ++
      [⟨kernel_binary_len, .KernelBinary⟩, ⟨ident_len, .Ident⟩]) ++
      ⟨literal_len, .LiteralString⟩ :: [⟨spaces_len, .Error⟩] := by
    simp [rules, regex_rules]
  refine Longest.best_of_split hsplit ?_ (by omega) (fun r hr => ?_) (fun r hr => ?_)
  · simp [literal_len, literal_body_plain hw]
  · rcases List.mem_append.mp hr with hr | hr
    · rw [token_len_keyword (by decide) hr]
      simp
    · simp only [List.mem_cons, List.mem_nil_iff, or_false] at hr
      rcases hr with rfl | rfl
      · simp [hkb]
      · simp [ident_len, is_ident_char]
  · rw [List.mem_singleton.mp hr]
    simp [spaces_len]

theorem best_separator {c : Char} (hc : c ≠ '/') :
    Longest.best rules ('=' :: c :: V) = some (.KVSeparator, 1) := by
  have hsplit : rules = keywords.dropLast.map keyword_rule ++
      keyword_rule ("=".toList, .KVSeparator) :: regex_rules := rfl
  refine Longest.best_of_split hsplit (by simp [keyword_rule, token_len, List.isPrefixOf])
    Nat.one_pos (fun r hr => ?_) (fun r hr => ?_)
  · obtain ⟨p, hp, rfl⟩ := List.mem_map.mp hr
    have hhead : ∀ p ∈ keywords.dropLast, p.1 ≠ [] ∧ p.1.head? ≠ some '=' := by decide
    simp [keyword_rule, token_len_of_head_ne (hhead p hp).1 (hhead p hp).2]
  · simp only [regex_rules, List.mem_cons, List.mem_nil_iff, or_false] at hr
    rcases hr with rfl | rfl | rfl | rfl
    · simp [kernel_binary_len, hc]
    · simp [ident_len, is_ident_char]
    · simp [literal_len]
    · simp [spaces_len]

theorem best_space {c : Char} (hc : c ≠ ' ') (hc' : c ≠ '/') :
    Longest.best rules (' ' :: c :: V) = some (.Error, 1) := by
  have hsplit : rules = (keywords.map keyword_rule ++ [⟨kernel_binary_len, .KernelBinary⟩,
      ⟨ident_len, .Ident⟩, ⟨literal_len, .LiteralString⟩]) ++ ⟨spaces_len, .Error⟩ :: [] := by
    simp [rules, regex_rules]
  refine Longest.best_of_split hsplit (by simp [spaces_len, hc]) Nat.one_pos (fun r hr => ?_)
    (fun r hr => by simp at hr)
  rcases List.mem_append.mp hr with hr | hr
  · rw [token_len_keyword (by decide) hr]
    simp
  · simp only [List.mem_cons, List.mem_nil_iff, or_false] at hr
    rcases hr with rfl | rfl | rfl
    · simp [kernel_binary_len, hc']
    · simp [ident_len, is_ident_char]
    · simp [literal_len]

theorem best_kernel (hR : R = [] ∨ ∃ R', R = ' ' :: R') :
    Longest.best rules ("./kernel".toList ++ R) = some (.KernelBinary, 8) := by
  -- the letters of `kernel` end at the space or the end after it
  have hletters : R.takeWhile Char.isAlpha = [] := by
    rcases hR with rfl | ⟨R', rfl⟩
    · rfl
    · simp [show Char.isAlpha ' ' = false from rfl]
  have hsplit : rules = keywords.map keyword_rule ++ ⟨kernel_binary_len, .KernelBinary⟩ ::
      [⟨ident_len, .Ident⟩, ⟨literal_len, .LiteralString⟩, ⟨spaces_len, .Error⟩] := rfl
  refine Longest.best_of_split hsplit ?_ (by omega) (fun r hr => ?_) (fun r hr => ?_)
  · show kernel_binary_len ('.' :: '/' :: ("kernel".toList ++ R)) = some 8
    simp [kernel_binary_len, hletters]
  · rw [show "./kernel".toList ++ R = '.' :: ("/kernel".toList ++ R) from rfl,
      token_len_keyword (by decide) hr]
    simp
  · simp only [List.mem_cons, List.mem_nil_iff, or_false] at hr
    rcases hr with rfl | rfl | rfl
    · show (ident_len ('.' :: '/' :: ("kernel".toList ++ R))).getD 0 ≤ 8
      simp [ident_len, is_ident_char]
    · show (literal_len ('.' :: ("/kernel".toList ++ R))).getD 0 ≤ 8
      simp [literal_len]
    · show (spaces_len ('.' :: ("/kernel".toList ++ R))).getD 0 ≤ 8
      simp [spaces_len]

end Lexing

/-! ## The tokens of a command line -/

/-- The token a value is lexed as. -/
def Value.token : Value → CmdToken
  | .ident v => word_token v
  | .literal _ => .LiteralString

/-- The tokens of a setting: its key, the separator and its value. -/
def Setting.lexemes (s : Setting) : List (CmdToken × List Char) :=
  [(word_token s.key.text, s.key.text), (.KVSeparator, ['=']), (s.value.token, s.value.text)]

/-- The settings of a command line, after `./kernel`. -/
def settings_text (ss : List Setting) : List Char := (ss.map fun s => ' ' :: s.text).flatten

section Tokens

variable {w R : List Char} {lexer : List Char → List (CmdToken × List Char)}

theorem word_token_ne_error (w : List Char) : word_token w ≠ .Error := by
  unfold word_token
  rcases hlook : keywords.lookup w with _ | t
  · simp
  · obtain ⟨pre, post, hkeys, -⟩ := List.lookup_eq_some_iff.mp hlook
    exact keywords_not_error (w, t) (by simp [hkeys])

theorem lexer_word (hlex : Longest.LongestMatch lexer rules (· == .Error)) (hw : w ≠ [])
    (hid : ∀ c ∈ w, is_ident_char c = true) (hR : WordEnd R) :
    lexer (w ++ R) = (word_token w, w) :: lexer R := by
  rw [hlex.token (by simp [hw]) (best_word hw hid hR)
    (by simpa using word_token_ne_error w), List.take_left' rfl, List.drop_left' rfl]

theorem lexer_literal (hlex : Longest.LongestMatch lexer rules (· == .Error)) {w : List Char}
    (hw : ∀ c ∈ w, is_literal_char c = true) :
    lexer ('\'' :: (w ++ '\'' :: R)) = (.LiteralString, '\'' :: w ++ ['\'']) :: lexer R := by
  rw [hlex.token (List.cons_ne_nil _ _) (best_literal hw) rfl]
  -- the slice runs to the closing quote, and the rest follows it
  have htake : ('\'' :: (w ++ '\'' :: R)).take (w.length + 2) = '\'' :: w ++ ['\''] := by
    rw [List.take_succ_cons, List.take_length_add_append]
    rfl
  have hdrop : ('\'' :: (w ++ '\'' :: R)).drop (w.length + 2) = R := by
    rw [List.drop_succ_cons, List.drop_length_add_append]
    rfl
  rw [htake, hdrop]

theorem lexer_separator (hlex : Longest.LongestMatch lexer rules (· == .Error)) {c : Char}
    {V : List Char} (hc : c ≠ '/') :
    lexer ('=' :: c :: V) = (.KVSeparator, ['=']) :: lexer (c :: V) := by
  rw [hlex.token (List.cons_ne_nil _ _) (best_separator hc) rfl]
  rfl

theorem lexer_space (hlex : Longest.LongestMatch lexer rules (· == .Error)) {c : Char}
    {V : List Char} (hc : c ≠ ' ') (hc' : c ≠ '/') :
    lexer (' ' :: c :: V) = lexer (c :: V) := by
  rw [hlex.skipped (List.cons_ne_nil _ _) (best_space hc hc') rfl]
  rfl

theorem settings_text_cons (s : Setting) (ss : List Setting) :
    settings_text (s :: ss) = ' ' :: (s.text ++ settings_text ss) := by
  simp [settings_text]

theorem settings_text_start (ss : List Setting) :
    settings_text ss = [] ∨ ∃ R', settings_text ss = ' ' :: R' := by
  rcases ss with _ | ⟨s, ss⟩
  · exact .inl rfl
  · exact .inr ⟨_, settings_text_cons s ss⟩

theorem wordEnd_settings_text (ss : List Setting) : WordEnd (settings_text ss) := by
  intro c R' h
  rcases settings_text_start ss with h' | ⟨R'', h'⟩
  · rw [h'] at h; cases h
  · rw [h'] at h
    obtain ⟨rfl, -⟩ := List.cons.inj h
    decide

theorem lexer_setting (hlex : Longest.LongestMatch lexer rules (· == .Error)) (s : Setting)
    (hs : s.value.wellFormed = true) (R : List Char) (hend : WordEnd R) :
    lexer (' ' :: (s.text ++ R)) = s.lexemes ++ lexer R := by
  obtain ⟨key, value⟩ := s
  -- every key is a nonempty word of letters
  have hkey : key.text ≠ [] ∧ (∀ c ∈ key.text, is_ident_char c = true) ∧
      ∃ a t, key.text = a :: t ∧ a ≠ ' ' ∧ a ≠ '/' := by
    cases key <;> exact ⟨by decide, List.all_eq_true.mp (by decide), _, _, rfl, by decide, by decide⟩
  obtain ⟨hne, hid, a, t, hat, ha, ha'⟩ := hkey
  have hsep : WordEnd ('=' :: (value.text ++ R)) := fun c R' h => by
    obtain ⟨rfl, -⟩ := List.cons.inj h
    decide
  -- the value starts with an identifier character or a quote
  obtain ⟨b, V, hbV, hb⟩ : ∃ b V, value.text ++ R = b :: V ∧ b ≠ '/' := by
    cases value with
    | ident v =>
        simp only [Value.wellFormed, Bool.and_eq_true, Bool.not_eq_true',
          List.isEmpty_eq_false_iff, List.all_eq_true] at hs
        obtain ⟨b, v', rfl⟩ := List.exists_cons_of_ne_nil hs.1
        exact ⟨b, v' ++ R, rfl, (ident_head hs.2).1⟩
    | literal w => exact ⟨'\'', _, rfl, by decide⟩
  have htext : ' ' :: (Setting.text ⟨key, value⟩ ++ R) =
      ' ' :: a :: (t ++ '=' :: (value.text ++ R)) := by
    simp [Setting.text, hat]
  have hword : a :: (t ++ '=' :: (value.text ++ R)) = key.text ++ '=' :: (value.text ++ R) := by
    simp [hat]
  rw [htext, lexer_space hlex ha ha', hword, lexer_word hlex hne hid hsep, hbV,
    lexer_separator hlex hb, ← hbV]
  simp only [Setting.lexemes, List.cons_append, List.nil_append, List.cons.injEq, true_and]
  -- the value itself
  cases value with
  | ident v =>
      simp only [Value.wellFormed, Bool.and_eq_true, Bool.not_eq_true',
        List.isEmpty_eq_false_iff, List.all_eq_true] at hs
      exact lexer_word hlex hs.1 hs.2 hend
  | literal w =>
      simp only [Value.wellFormed, List.all_eq_true] at hs
      simp only [Value.text, Value.token, List.cons_append, List.append_assoc]
      exact lexer_literal hlex hs

theorem lexer_settings_text (hlex : Longest.LongestMatch lexer rules (· == .Error))
    (ss : List Setting) (hss : ∀ s ∈ ss, s.value.wellFormed = true) :
    lexer (settings_text ss) = (ss.map Setting.lexemes).flatten := by
  induction ss with
  | nil => exact hlex.nil
  | cons s ss ih =>
      rw [settings_text_cons, lexer_setting hlex s (hss s List.mem_cons_self) _
        (wordEnd_settings_text ss),
        ih fun s' hs' => hss s' (List.mem_cons_of_mem s hs')]
      rfl

/-- The tokens of a command line `./kernel k₁=v₁ ... kₙ=vₙ`. -/
theorem lexer_render (hlex : Longest.LongestMatch lexer rules (· == .Error)) (ss : List Setting)
    (hss : ∀ s ∈ ss, s.value.wellFormed = true) :
    lexer (render ss) = (.KernelBinary, "./kernel".toList) :: (ss.map Setting.lexemes).flatten := by
  have hrender : render ss = "./kernel".toList ++ settings_text ss := rfl
  rw [hrender, ← lexer_settings_text hlex ss hss,
    hlex.token (by simp) (best_kernel (settings_text_start ss)) rfl,
    List.take_left' (show "./kernel".toList.length = 8 from rfl),
    List.drop_left' (show "./kernel".toList.length = 8 from rfl)]

end Tokens

/-! ## Reading the tokens -/

section Reading

variable {a : CommandLineArguments} {prev : CmdToken}

theorem parse_token_key (k : Key) (v : List Char) :
    parse_token (a, prev) (word_token k.text, v) = (a, word_token k.text) := by
  cases k <;> rfl

theorem assign_key (k : Key) (v : List Char) :
    assign (word_token k.text) v a = some (k.apply v a) := by
  cases k <;> rfl

theorem parse_token_keyword {p : List Char × CmdToken} (hp : p ∈ keywords) (v : List Char)
    (st : CommandLineArguments × CmdToken) : (parse_token st (p.2, v)).1 = st.1 := by
  simp only [keywords, List.mem_cons, List.mem_nil_iff, or_false] at hp
  rcases hp with rfl | rfl | rfl | rfl | rfl | rfl | rfl | rfl | rfl | rfl <;> rfl

theorem parse_token_literal (k : Key) (hk : k ≠ .mode ∧ k ≠ .transport) (w : List Char) :
    parse_token (a, word_token k.text) (.LiteralString, '\'' :: w ++ ['\'']) =
      (k.apply w a, .Error) := by
  have hstrip : (('\'' :: w ++ ['\'']).drop 1).dropLast = w := by simp
  cases k
  case mode => exact absurd rfl hk.1
  case transport => exact absurd rfl hk.2
  -- the key's token is neither `Mode` nor `Transport`, and its arm is the key's
  all_goals simp only [parse_token, hstrip]; rfl

theorem parse_token_literal_skipped (k : Key) (hk : k = .mode ∨ k = .transport)
    (w : List Char) :
    parse_token (a, word_token k.text) (.LiteralString, w) = (a, word_token k.text) := by
  rcases hk with rfl | rfl <;> rfl

theorem parse_lexemes (s : Setting) (st : CommandLineArguments × CmdToken) :
    (s.lexemes.foldl parse_token st).1 =
      if s.read then s.key.apply s.value.content st.1 else st.1 := by
  obtain ⟨key, value⟩ := s
  obtain ⟨a, prev⟩ := st
  have hsep : parse_token (a, word_token key.text) (.KVSeparator, ['=']) =
      (a, word_token key.text) := rfl
  simp only [Setting.lexemes, List.foldl_cons, List.foldl_nil, parse_token_key, hsep]
  cases value with
  | ident v =>
      rcases hlook : keywords.lookup v with _ | t
      · -- not a keyword: an `Ident` for the key's arm
        have hread : Setting.read ⟨key, .ident v⟩ = true := by simp [Setting.read, hlook]
        have htok : Value.token (.ident v) = .Ident := by simp [Value.token, word_token, hlook]
        rw [if_pos hread, htok]
        simp [parse_token, assign_key, Value.content, Value.text]
      · -- a keyword: it takes the place of the key in `prev`
        have hread : Setting.read ⟨key, .ident v⟩ = false := by simp [Setting.read, hlook]
        have htok : Value.token (.ident v) = t := by simp [Value.token, word_token, hlook]
        obtain ⟨pre, post, hkeys, -⟩ := List.lookup_eq_some_iff.mp hlook
        rw [if_neg (by simp [hread]), htok]
        exact parse_token_keyword (p := (v, t)) (by simp [hkeys]) _ _
  | literal w =>
      by_cases hk : key = .mode ∨ key = .transport
      · have hread : Setting.read ⟨key, .literal w⟩ = false := by
          rcases hk with rfl | rfl <;> rfl
        rw [if_neg (by simp [hread]), Value.token, parse_token_literal_skipped key hk]
      · have hk' : key ≠ .mode ∧ key ≠ .transport := not_or.mp hk
        have hread : Setting.read ⟨key, .literal w⟩ = true := by
          simp [Setting.read, hk'.1, hk'.2]
        rw [if_pos hread, Value.token, Value.text, parse_token_literal key hk' w]
        rfl

/-- `from_str`'s loop over the tokens of the settings applies the settings it reads, in turn. -/
theorem parse_settings (ss : List Setting) (st : CommandLineArguments × CmdToken) :
    ((ss.map Setting.lexemes).flatten.foldl parse_token st).1 =
      (ss.filter Setting.read).foldl (fun a s => s.key.apply s.value.content a) st.1 := by
  induction ss generalizing st with
  | nil => rfl
  | cons s ss ih =>
      rw [List.map_cons, List.flatten_cons, List.foldl_append, ih, parse_lexemes, List.filter_cons]
      by_cases hread : s.read = true
      · simp [hread]
      · simp [hread]

end Reading

/-- On a command line `./kernel k₁=v₁ ... kₙ=vₙ` of well-formed values, `from_str` over a
longest-match lexer returns the defaults overridden by the settings in turn, leaving out exactly
the settings it does not read: identifier values that spell a keyword, and quoted values of
`mode` and `transport`. -/
theorem from_str_render_eq_expected_read {lexer : List Char → List (CmdToken × List Char)}
    (hlex : Longest.LongestMatch lexer rules (· == .Error)) (ss : List Setting)
    (hss : ∀ s ∈ ss, s.value.wellFormed = true) :
    from_str lexer (render ss) = expected (ss.filter Setting.read) := by
  rw [from_str, lexer_render hlex ss hss, List.foldl_cons]
  exact parse_settings ss _

/-- `./kernel init=test` leaves `init_binary` at its default `init`, where the setting asks for
`test`: the value is lexed as the keyword `test`. -/
theorem from_str_render_init_test :
    Longest.LongestMatch (Longest.tokens rules (· == .Error) .Error) rules (· == .Error) ∧
    (∀ s ∈ [Setting.mk .init (.ident "test".toList)], s.value.wellFormed = true) ∧
    from_str (Longest.tokens rules (· == .Error) .Error) (render [⟨.init, .ident "test".toList⟩]) =
      expected ([Setting.mk .init (.ident "test".toList)].filter Setting.read) ∧
    (expected [⟨.init, .ident "test".toList⟩]).init_binary = "test".toList ∧
    (from_str (Longest.tokens rules (· == .Error) .Error)
      (render [⟨.init, .ident "test".toList⟩])).init_binary = "init".toList :=
  ⟨Longest.tokens_longestMatch, by decide,
    from_str_render_eq_expected_read Longest.tokens_longestMatch _ (by decide), by decide, by decide⟩

example :
    (from_str (Longest.tokens rules (· == .Error) .Error) "./kernel mode='controller'".toList).mode =
      .Native := by decide

end Nrk.Cmdline
