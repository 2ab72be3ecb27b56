import Mathlib.Data.List.Basic

/-! Constant tables of bytes in C text without string literals outside its directives: a lexer that
goes from character to character, and a reader of `static const uint8_t name[n]` with its list
of hexadecimal initializers. -/

namespace CText

inductive Token where
  | word (chars : List Char)
  | punct (c : Char)
  deriving DecidableEq, Repr

/-- Where the lexer stands. A `line` is a directive or a comment up to the end of its line. -/
inductive Mode where
  | blank
  | word (chars : List Char)
  | slash
  | comment
  | star
  | line
  deriving DecidableEq, Repr

def isWord (c : Char) : Bool := c.isAlphanum || c == '_'

def scanBlank (c : Char) : List Token × Mode :=
  if isWord c then ([], .word [c])
  else if c.isWhitespace then ([], .blank)
  else if c = '#' then ([], .line)
  else if c = '/' then ([], .slash)
  else ([.punct c], .blank)

/-- The token that the end of the text completes. -/
def Mode.pending : Mode → List Token
  | .word w => [.word w]
  | .slash => [.punct '/']
  | _ => []

def scan : Mode → Char → List Token × Mode
  | .blank, c => scanBlank c
  | .word w, c =>
    if isWord c then ([], .word (w ++ [c]))
    else (.word w :: (scanBlank c).1, (scanBlank c).2)
  | .slash, c =>
    if c = '*' then ([], .comment)
    else if c = '/' then ([], .line)
    else (.punct '/' :: (scanBlank c).1, (scanBlank c).2)
  | .comment, c => ([], if c = '*' then .star else .comment)
  | .star, c => ([], if c = '/' then .blank else if c = '*' then .star else .comment)
  | .line, c => ([], if c = '\n' then .blank else .line)

/-- The tokens that a text completes, and where it leaves the lexer. -/
def run : Mode → List Char → List Token × Mode
  | m, [] => ([], m)
  | m, c :: cs => ((scan m c).1 ++ (run (scan m c).2 cs).1, (run (scan m c).2 cs).2)

def tokens (cs : List Char) : List Token := (run .blank cs).1 ++ (run .blank cs).2.pending

/-! ### Declarations -/

structure ByteTable where
  name : List Char
  size : ℕ
  entries : List ℕ
  deriving DecidableEq, Repr

def decimal? (w : List Char) : Option ℕ :=
  if w ≠ [] ∧ w.all Char.isDigit then some (Nat.ofDigitChars 10 w 0) else none

def hexDigit? (c : Char) : Option ℕ :=
  if c.isDigit then some (c.toNat - 0x30)
  else if 'A' ≤ c ∧ c ≤ 'F' then some (c.toNat - 0x37)
  else if 'a' ≤ c ∧ c ≤ 'f' then some (c.toNat - 0x57)
  else none

def hex? : List Char → Option ℕ
  | '0' :: 'x' :: d :: ds =>
    (d :: ds).foldlM (fun n c => (hexDigit? c).map (16 * n + ·)) 0
  | _ => none

/-- The initializers up to the closing brace, with or without a comma behind the last. -/
def entries? : List Token → Option (List ℕ)
  | [.punct '}'] => some []
  | [.word w, .punct '}'] => (hex? w).map ([·])
  | .word w :: .punct ',' :: ts => do return (← hex? w) :: (← entries? ts)
  | _ => none

/-- The table that a declaration declares, if it declares one. -/
def byteTable? : List Token → Option ByteTable
  | .word storage :: .word qualifier :: .word type :: .word name :: .punct '[' :: .word size ::
      .punct ']' :: .punct '=' :: .punct '{' :: ts =>
    if storage = "static".toList ∧ qualifier = "const".toList ∧ type = "uint8_t".toList then do
      return ⟨name, ← decimal? size, ← entries? ts⟩
    else none
  | _ => none

/-- The tables of bytes that a text declares. -/
def byteTables (cs : List Char) : List ByteTable :=
  ((tokens cs).splitOn (.punct ';')).filterMap byteTable?

example : byteTables
    "int x; static const uint8_t a[2] = \x7b 0x0F, /* one; two */ 0xA0 \x7d;".toList =
    [⟨"a".toList, 2, [15, 160]⟩] := by decide

/-! ### The lexer over pieces of text -/

section Run

variable {m m' m'' : Mode} {xs ys : List Char} {ts us : List Token}

theorem run_append (hx : run m xs = (ts, m')) (hy : run m' ys = (us, m'')) :
    run m (xs ++ ys) = (ts ++ us, m'') := by
  induction xs generalizing m ts with
  | nil =>
      cases hx
      simpa [run] using hy
  | cons c cs ih =>
      simp only [run, Prod.mk.injEq] at hx
      obtain ⟨rfl, hmode⟩ := hx
      simp only [List.cons_append, run, ih (Prod.ext rfl hmode), List.append_assoc]

/-- A word goes on as long as its characters do. -/
theorem run_word {w : List Char} (h : ∀ c ∈ xs, isWord c = true) :
    run (.word w) xs = ([], .word (w ++ xs)) := by
  induction xs generalizing w with
  | nil => simp [run]
  | cons c cs ih =>
      have hc := h c (by simp)
      simp only [run, scan, hc, if_true, ih fun d hd => h d (by simp [hd])]
      simp

theorem run_blank_word {c : Char} (hc : isWord c = true) (h : ∀ d ∈ xs, isWord d = true) :
    run .blank (c :: xs) = ([], .word (c :: xs)) := by
  simp only [run, scan, scanBlank, hc, if_true, run_word h]
  simp

/-- A directive goes on to the end of its line. -/
theorem run_line (h : '\n' ∉ xs) : run .line xs = ([], .line) := by
  induction xs with
  | nil => rfl
  | cons c cs ih =>
      have hc : c ≠ '\n' := fun he => h (by simp [he])
      simp only [run, scan, if_neg hc, ih fun hn => h (by simp [hn])]
      rfl

end Run

/-- The characters that neither end a declaration nor begin a comment or a directive. -/
def isPlain (c : Char) : Bool := c != ';' && c != '#' && c != '/'

def Mode.Plain : Mode → Prop
  | .blank | .word _ => True
  | _ => False

theorem isPlain_intercalate {sep : List Char} {texts : List (List Char)}
    (hsep : ∀ c ∈ sep, isPlain c = true) (h : ∀ text ∈ texts, ∀ c ∈ text, isPlain c = true) :
    ∀ c ∈ sep.intercalate texts, isPlain c = true := by
  induction texts with
  | nil => simp
  | cons text texts ih =>
      have hfirst := h text (by simp)
      have hrest := ih fun t ht => h t (by simp [ht])
      cases texts with
      | nil => simpa using hfirst
      | cons text' texts =>
          intro c hc
          simp only [List.intercalate_cons_cons, List.mem_append] at hc
          rcases hc with (hc | hc) | hc
          · exact hfirst c hc
          · exact hsep c hc
          · exact hrest c hc

theorem scanBlank_plain {c : Char} (hc : isPlain c = true) :
    .punct ';' ∉ (scanBlank c).1 ∧ (scanBlank c).2.Plain := by
  simp only [isPlain, Bool.and_eq_true, bne_iff_ne] at hc
  obtain ⟨⟨hsemi, hhash⟩, hslash⟩ := hc
  unfold scanBlank
  split
  · simp [Mode.Plain]
  · split
    · simp [Mode.Plain]
    · exact ⟨by simp [Ne.symm hsemi], trivial⟩

theorem scan_plain {m : Mode} {c : Char} (hm : m.Plain) (hc : isPlain c = true) :
    .punct ';' ∉ (scan m c).1 ∧ (scan m c).2.Plain := by
  cases m with
  | blank => exact scanBlank_plain hc
  | word w =>
      simp only [scan]
      split
      · simp [Mode.Plain]
      · simpa using scanBlank_plain hc
  | slash | comment | star | line => cases hm

/-- Plain text ends no declaration. -/
theorem run_plain {m : Mode} {cs : List Char} (hm : m.Plain) (hcs : ∀ c ∈ cs, isPlain c = true) :
    .punct ';' ∉ (run m cs).1 ∧ (run m cs).2.Plain := by
  induction cs generalizing m with
  | nil => simpa [run] using hm
  | cons c cs ih =>
      obtain ⟨hfirst, hmode⟩ := scan_plain hm (hcs c (by simp))
      obtain ⟨hrest, hend⟩ := ih hmode fun d hd => hcs d (by simp [hd])
      simp only [run, List.mem_append]
      exact ⟨fun h => h.elim hfirst hrest, hend⟩

/-- The end of a list of initializers. -/
theorem run_close {m : Mode} (hm : m.Plain) :
    run m "\n\x7d;\n".toList = (m.pending ++ [.punct '}'] ++ [.punct ';'], .blank) := by
  cases m with
  | blank | word w => rfl
  | slash | comment | star | line => cases hm

theorem Mode.Plain.pending {m : Mode} (hm : m.Plain) : .punct ';' ∉ m.pending := by
  cases m with
  | blank | word w => simp [Mode.pending]
  | slash | comment | star | line => cases hm

/-! ### The tables of a piece of text -/

/-- A text declares these tables, whatever follows it. -/
def Declares (cs : List Char) (as : List ByteTable) : Prop :=
  ∀ rest, byteTables (cs ++ rest) = as ++ byteTables rest

theorem tokens_append {cs : List Char} {ts : List Token} (h : run .blank cs = (ts, .blank))
    (rest : List Char) : tokens (cs ++ rest) = ts ++ tokens rest := by
  simp only [tokens, run_append h (Prod.ext rfl rfl), List.append_assoc]

namespace Declares

variable {cs ds : List Char} {as bs : List ByteTable}

theorem byteTables_eq (h : Declares cs as) : byteTables cs = as := by
  have hempty : byteTables [] = [] := rfl
  have hall := h []
  rwa [List.append_nil, hempty, List.append_nil] at hall

theorem append (hc : Declares cs as) (hd : Declares ds bs) : Declares (cs ++ ds) (as ++ bs) := by
  intro rest
  rw [List.append_assoc, hc, hd, List.append_assoc]

/-- Comments, directives and blanks declare nothing. -/
theorem skip (h : run .blank cs = ([], .blank)) : Declares cs [] := by
  intro rest
  simp only [byteTables, tokens_append h, List.nil_append]

/-- Pieces that declare nothing. -/
theorem flatten {texts : List (List Char)} (h : ∀ text ∈ texts, Declares text []) :
    Declares texts.flatten [] := by
  induction texts with
  | nil => exact .skip rfl
  | cons text texts ih =>
      have hfirst := h text (by simp)
      exact hfirst.append (ih fun t ht => h t (by simp [ht]))

theorem declaration {ts : List Token} (h : run .blank cs = (ts ++ [.punct ';'], .blank))
    (hts : .punct ';' ∉ ts) : Declares cs (byteTable? ts).toList := by
  intro rest
  simp only [byteTables, tokens_append h, List.append_assoc, List.singleton_append]
  rw [List.splitOn_append_cons_self_of_not_mem hts, List.filterMap_cons]
  cases byteTable? ts <;> rfl

/-- A declaration with initializers whose beginning already tells that it declares no such
table. -/
theorem other {start : List Char} {ts : List Token} (hstart : run .blank start = (ts, .blank))
    (hts : .punct ';' ∉ ts) (hnone : ∀ us, byteTable? (ts ++ us) = none)
    (hcs : ∀ c ∈ cs, isPlain c = true) : Declares (start ++ cs ++ "\n\x7d;\n".toList) [] := by
  obtain ⟨hrest, hplain⟩ := run_plain (m := .blank) trivial hcs
  have hrun := run_append (run_append hstart (Prod.ext rfl rfl)) (run_close hplain)
  rw [← List.append_assoc] at hrun
  have hend : .punct ';' ∉
      ts ++ (run .blank cs).1 ++ ((run .blank cs).2.pending ++ [.punct '}']) := by
    simp only [List.mem_append, not_or]
    exact ⟨⟨hts, hrest⟩, hplain.pending, by decide⟩
  have h := declaration hrun hend
  rwa [List.append_assoc ts, hnone] at h

end Declares

end CText
