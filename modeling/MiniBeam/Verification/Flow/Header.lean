import MiniBeam.Library.CText
import MiniBeam.Verification.Flow.Code

/-! The header of a flow: the arrays that a reader of C finds in it, and the instructions that
the interpreter finds in the arrays, read by `decode` (which `mbProcStep_eq` shows it to use). -/

namespace MiniBeam

open CText ErlTerm

/-! ### Numbers -/

theorem fmtInt_isDigit (n : ℕ) : ∀ c ∈ fmtInt n, c.isDigit = true := fun _ hc =>
  Nat.isDigit_of_mem_toDigits (by decide) (by decide) hc

theorem isWord_of_isDigit {c : Char} (h : c.isDigit = true) : isWord c = true := by
  simp [isWord, Char.isAlphanum, h]

theorem decimal?_fmtInt (n : ℕ) : decimal? (fmtInt n) = some n := by
  have hdigits : (fmtInt n).all Char.isDigit = true := List.all_eq_true.mpr (fmtInt_isDigit n)
  have hne : fmtInt n ≠ [] := Nat.toDigits_ne_nil
  have hvalue : Nat.ofDigitChars 10 (fmtInt n) 0 = n := Nat.ofDigitChars_ten_toDigits
  rw [decimal?, if_pos ⟨hne, hdigits⟩, hvalue]

theorem fmtByte_word : ∀ b : Byte, (fmtByte b).all isWord = true := by decide +kernel

theorem hex?_fmtByte : ∀ b : Byte, hex? (fmtByte b) = some b.toNat := by decide +kernel

theorem run_fmtInt (n : ℕ) : run .blank (fmtInt n) = ([], .word (fmtInt n)) := by
  cases h : fmtInt n with
  | nil => exact absurd h Nat.toDigits_ne_nil
  | cons c cs =>
      have hword : ∀ d ∈ c :: cs, isWord d = true := fun d hd =>
        isWord_of_isDigit (fmtInt_isDigit n d (h ▸ hd))
      exact run_blank_word (hword c (by simp)) fun d hd => hword d (List.mem_cons_of_mem c hd)

theorem newline_not_mem_fmtInt (z : ℤ) : '\n' ∉ fmtInt z := by
  intro h
  cases z with
  | ofNat n => exact absurd (fmtInt_isDigit n _ h) (by decide)
  | negSucc n =>
      cases List.mem_cons.mp h with
      | inl hsign => exact absurd hsign (by decide)
      | inr hdigit => exact absurd (fmtInt_isDigit (n + 1) _ hdigit) (by decide)

/-! ### One array -/

/-- The tokens of a list of initializers. -/
def byteTokens : List Byte → List Token
  | [] => []
  | [b] => [.word (fmtByte b)]
  | b :: r => .word (fmtByte b) :: .punct ',' :: byteTokens r

/-- What a reader of an array should find. -/
def tableOf (name : List Char) (bs : List Byte) : ByteTable :=
  ⟨name, bs.length, bs.map BitVec.toNat⟩

theorem run_fmtByte (b : Byte) : run .blank (fmtByte b) = ([], .word (fmtByte b)) := by
  have hword := List.all_eq_true.mp (fmtByte_word b)
  exact run_blank_word (hword '0' (by simp [fmtByte]))
    fun c hc => hword c (List.mem_cons_of_mem _ hc)

/-- A byte that another follows, on the same line or on the next. -/
theorem run_fmtByte_comma (b : Byte) {sep : List Char}
    (h : sep = ", ".toList ∨ sep = ",\n    ".toList) :
    run .blank (fmtByte b ++ sep) = ([.word (fmtByte b), .punct ','], .blank) := by
  have hsep : run (.word (fmtByte b)) sep = ([.word (fmtByte b), .punct ','], .blank) := by
    cases h with
    | inl hspace => rw [hspace]; rfl
    | inr hline => rw [hline]; rfl
  have hrun := run_append (run_fmtByte b) hsep
  exact hrun

theorem run_fmtBytes (bs : List Byte) (c : ℕ) :
    run .blank (fmtBytes bs c ++ "\n\x7d;\n".toList) =
      (byteTokens bs ++ [.punct '}', .punct ';'], .blank) := by
  induction bs generalizing c with
  | nil => rfl
  | cons b r ih =>
      cases r with
      | nil =>
          have hend : run (.word (fmtByte b)) "\n\x7d;\n".toList =
            ([.word (fmtByte b), .punct '}', .punct ';'], .blank) := rfl
          have hrun := run_append (run_fmtByte b) hend
          exact hrun
      | cons b' r =>
          obtain ⟨sep, hsep, hcons⟩ : ∃ sep, (sep = ", ".toList ∨ sep = ",\n    ".toList) ∧
              fmtBytes (b :: b' :: r) c = fmtByte b ++ sep ++ fmtBytes (b' :: r) (c + 1) := by
            rw [fmtBytes]
            · split
              · exact ⟨_, .inr rfl, rfl⟩
              · exact ⟨_, .inl rfl, rfl⟩
            · exact List.cons_ne_nil b' r
          rw [hcons, List.append_assoc]
          have hrun := run_append (run_fmtByte_comma b hsep) (ih (c + 1))
          exact hrun

theorem entries?_byteTokens (bs : List Byte) :
    entries? (byteTokens bs ++ [.punct '}']) = some (bs.map BitVec.toNat) := by
  induction bs with
  | nil => rfl
  | cons b r ih =>
      cases r with
      | nil => simp [byteTokens, entries?, hex?_fmtByte]
      | cons b' r =>
          show (do return (← hex? (fmtByte b)) ::
            (← entries? (byteTokens (b' :: r) ++ [Token.punct '}']))) = _
          rw [ih, hex?_fmtByte]
          rfl

theorem semicolon_not_mem_byteTokens (bs : List Byte) : Token.punct ';' ∉ byteTokens bs := by
  induction bs with
  | nil => simp [byteTokens]
  | cons b r ih =>
      cases r with
      | nil => simp [byteTokens]
      | cons b' r => simpa [byteTokens] using ih

/-- The tokens of the declaration of an array. -/
def arrayTokens (name : List Char) (bs : List Byte) : List Token :=
  [.word "static".toList, .word "const".toList, .word "uint8_t".toList, .word name, .punct '[',
    .word (fmtInt bs.length), .punct ']', .punct '=', .punct '{'] ++ byteTokens bs ++ [.punct '}']

theorem byteTable?_arrayTokens (name : List Char) (bs : List Byte) :
    byteTable? (arrayTokens name bs) = some (tableOf name bs) := by
  simp [arrayTokens, byteTable?, decimal?_fmtInt, entries?_byteTokens, tableOf]

theorem run_arr {name : List Char} (hname : run .blank name = ([], .word name))
    (bs : List Byte) :
    run .blank (arr name bs) = (arrayTokens name bs ++ [.punct ';'], .blank) := by
  have hstart : run .blank "static const uint8_t ".toList =
    ([.word "static".toList, .word "const".toList, .word "uint8_t".toList], .blank) := by
    decide +kernel
  have hopen : run (.word name) "[".toList = ([.word name, .punct '['], .blank) := rfl
  have hsize : run .blank (fmtInt bs.length) = ([], .word (fmtInt bs.length)) := run_fmtInt _
  have hlist : run (.word (fmtInt bs.length)) "] = \x7b\n    ".toList =
    ([.word (fmtInt bs.length), .punct ']', .punct '=', .punct '{'], .blank) := rfl
  have hrun := run_append (run_append (run_append (run_append (run_append hstart hname) hopen)
    hsize) hlist) (run_fmtBytes bs 0)
  have hassoc : arr name bs = "static const uint8_t ".toList ++ name ++ "[".toList ++
      fmtInt bs.length ++ "] = \x7b\n    ".toList ++ (fmtBytes bs 0 ++ "\n\x7d;\n".toList) :=
    List.append_assoc _ _ _
  rw [hassoc]
  refine hrun.trans ?_
  simp only [arrayTokens, List.append_assoc, List.cons_append, List.nil_append]

/-- An emitted array declares its bytes, and as many as there are. -/
theorem declares_arr {name : List Char} (hname : run .blank name = ([], .word name))
    (bs : List Byte) : Declares (arr name bs) [tableOf name bs] := by
  have hend : .punct ';' ∉ arrayTokens name bs := by
    simp [arrayTokens, semicolon_not_mem_byteTokens]
  have hdeclares := Declares.declaration (run_arr hname bs) hend
  rwa [byteTable?_arrayTokens] at hdeclares

theorem run_sensorProgName (i : ℕ) :
    run .blank (sensorProgName i) = ([], .word (sensorProgName i)) := by
  have hstart : run .blank "os2_flow_sensor_prog_".toList =
    ([], .word "os2_flow_sensor_prog_".toList) := by decide +kernel
  have hdigits := run_word (w := "os2_flow_sensor_prog_".toList) fun c hc =>
    isWord_of_isDigit (fmtInt_isDigit i c hc)
  exact run_append hstart hdigits

/-! ### The header -/

/-- The arrays of the sensors, numbered from `k`. -/
def sensorTables (k : ℕ) : List (List Byte) → List ByteTable
  | [] => []
  | p :: ps => tableOf (sensorProgName k) p :: sensorTables (k + 1) ps

theorem declares_sensorArrays (progs : List (List Byte)) (k : ℕ) :
    Declares (((List.range' k progs.length).zip progs).flatMap fun (i, p) =>
      arr (sensorProgName i) p) (sensorTables k progs) := by
  induction progs generalizing k with
  | nil => exact .skip rfl
  | cons p ps ih =>
      have hfirst := declares_arr (run_sensorProgName k) p
      exact hfirst.append (ih (k + 1))

/-- A directive declares nothing, whatever stands in it. -/
theorem declares_directive {start text stop : List Char} (hstart : run .blank start = ([], .line))
    (htext : run .line text = ([], .line)) (hstop : run .line stop = ([], .blank)) :
    Declares (start ++ text ++ stop) [] :=
  .skip (run_append (run_append hstart htext) hstop)

theorem declares_headerDefines (n : ℕ) (md wd : ℤ) {ofs : List Char} (hofs : '\n' ∉ ofs) :
    Declares (headerDefines n md wd ofs) [] := by
  have hint (z : ℤ) : run .line (fmtInt z) = ([], .line) := run_line (newline_not_mem_fmtInt z)
  have hcomment : run .blank "/* Generated by OS/II flow compiler -- do not edit */\n".toList =
    ([], .blank) := by decide +kernel
  have hguard : run .blank
      "#ifndef OS2_FLOW_GENERATED_H\n#define OS2_FLOW_GENERATED_H\n\n".toList =
    ([], .blank) := by decide +kernel
  have hsensors : run .blank "#define OS2_FLOW_SENSOR_COUNT ".toList = ([], .line) := by
    decide +kernel
  have hprocesses : run .blank "#define OS2_FLOW_PROCESS_COUNT ".toList = ([], .line) := by
    decide +kernel
  have hdepth : run .blank "#define OS2_FLOW_MAILBOX_DEPTH ".toList = ([], .line) := by
    decide +kernel
  have hwatchdog : run .blank "#define OS2_FLOW_WATCHDOG_MS ".toList = ([], .line) := by
    decide +kernel
  have hfail : run .blank "#define OS2_FLOW_ON_FAIL \"".toList = ([], .line) := by decide +kernel
  have hnewline : run .line "\n".toList = ([], .blank) := by decide
  have hclose : run .line "\"\n\n".toList = ([], .blank) := by decide
  apply Declares.flatten
  simp only [List.forall_mem_cons]
  exact ⟨.skip hcomment, .skip hguard, declares_directive hsensors (hint n) hnewline,
    declares_directive hprocesses (hint (n + 1)) hnewline,
    declares_directive hdepth (hint md) hnewline, declares_directive hwatchdog (hint wd) hnewline,
    declares_directive hfail (run_line hofs) hclose, List.forall_mem_nil _⟩

/-! ### The tables of pointers and sizes -/

theorem isPlain_of_isDigit {c : Char} (h : c.isDigit = true) : isPlain c = true := by
  have hsemicolon : c ≠ ';' := fun he => absurd (he ▸ h) (by decide)
  have hhash : c ≠ '#' := fun he => absurd (he ▸ h) (by decide)
  have hslash : c ≠ '/' := fun he => absurd (he ▸ h) (by decide)
  simp [isPlain, hsemicolon, hhash, hslash]

theorem isPlain_sensorProgName (i : ℕ) : ∀ c ∈ sensorProgName i, isPlain c = true := by
  intro c hc
  cases List.mem_append.mp hc with
  | inl hname =>
      have hall : "os2_flow_sensor_prog_".toList.all isPlain = true := by decide +kernel
      exact List.all_eq_true.mp hall c hname
  | inr hdigit => exact isPlain_of_isDigit (fmtInt_isDigit i c hdigit)

/-- A list of one text for each sensor. -/
theorem isPlain_entries {sep : List Char} {text : ℕ → List Char} {n : ℕ}
    (hsep : sep.all isPlain = true) (htext : ∀ i, ∀ c ∈ text i, isPlain c = true) :
    ∀ c ∈ sep.intercalate ((seq n).map text), isPlain c = true := by
  apply isPlain_intercalate (List.all_eq_true.mp hsep)
  intro entry hentry
  obtain ⟨i, -, rfl⟩ := List.mem_map.mp hentry
  exact htext i

theorem declares_sensorTable (n : ℕ) : Declares (sensorTable n) [] := by
  have hstart : run .blank "static const uint8_t *os2_flow_sensor_progs[] = \x7b\n".toList =
    ([.word "static".toList, .word "const".toList, .word "uint8_t".toList, .punct '*',
      .word "os2_flow_sensor_progs".toList, .punct '[', .punct ']', .punct '=', .punct '{'],
      .blank) := by decide +kernel
  have hindent : "    ".toList.all isPlain = true := by decide
  apply Declares.other hstart (by decide) (fun us => rfl)
  apply isPlain_entries (by decide)
  intro i
  exact List.forall_mem_append.mpr ⟨List.all_eq_true.mp hindent, isPlain_sensorProgName i⟩

theorem declares_sizeTable (n : ℕ) : Declares (sizeTable n) [] := by
  have hstart : run .blank "static const size_t os2_flow_sensor_sizes[] = \x7b\n    ".toList =
    ([.word "static".toList, .word "const".toList, .word "size_t".toList,
      .word "os2_flow_sensor_sizes".toList, .punct '[', .punct ']', .punct '=', .punct '{'],
      .blank) := by decide +kernel
  have hopen : "sizeof(".toList.all isPlain = true := by decide
  have hclose : ")".toList.all isPlain = true := by decide
  apply Declares.other hstart (by decide) (fun us => rfl)
  apply isPlain_entries (by decide)
  intro i
  have hname := List.forall_mem_append.mpr
    ⟨List.all_eq_true.mp hopen, isPlain_sensorProgName i⟩
  exact List.forall_mem_append.mpr ⟨hname, List.all_eq_true.mp hclose⟩

/-! ### The whole header -/

theorem validatePolicy_ok {p : ErlTerm} (h : validatePolicy p = .ok ()) :
    ∃ (md wd : ℤ) (onFail : String), p.key "mailbox_depth" = some (.int md) ∧
      p.key "watchdog_ms" = some (.int wd) ∧ p.key "on_fail" = some (.atom onFail) ∧
      '\n' ∉ onFail.toList := by
  unfold validatePolicy at h
  split at h
  · rename_i m w f hm hw hf
    split at h
    · rename_i hv
      simp only [Bool.and_eq_true, Bool.or_eq_true, intFrom_iff] at hv
      obtain ⟨⟨⟨md, rfl, -⟩, wd, rfl, -⟩, hatom⟩ := hv
      rcases hatom with (hatom | hatom) | hatom
      all_goals
        obtain rfl := same_atom hatom
        exact ⟨md, wd, _, hm, hw, hf, by decide⟩
    · cases h
  · cases h

/-- The header of a valid flow is emitted, and declares its programs. -/
theorem emitHeader_declares {flow : ErlTerm} {ss : List ErlTerm} {progs : List (List Byte)}
    (hvalid : validate flow = .ok ()) (hss : flow.key "sensors" = some (.list ss))
    (hlen : progs.length = ss.length) (act : List Byte) :
    ∃ header, emitHeader flow progs act = .ok header ∧
      byteTables header = sensorTables 1 progs ++ [tableOf actuatorProgName act] := by
  obtain ⟨-, -, -, p, -, -, hpolicy, -, -, -, hp⟩ := validate_ok hvalid
  obtain ⟨md, wd, onFail, hmd, hwd, hfail, hline⟩ := validatePolicy_ok hp
  refine ⟨headerText ss.length md wd onFail.toList progs act, ?_, ?_⟩
  · simp only [emitHeader, hss, hpolicy, hmd, hwd, hfail, elems?, int?, atom?, crashIfNone]
    exact if_pos hlen
  · have hname : run .blank actuatorProgName = ([], .word actuatorProgName) := by decide +kernel
    have hblank : run .blank "\n".toList = ([], .blank) := by decide
    have hendif : run .blank "\n#endif\n".toList = ([], .blank) := by decide +kernel
    have hdeclares := (declares_headerDefines ss.length md wd hline).append
      ((declares_sensorArrays progs 1).append ((Declares.skip hblank).append
        ((declares_sensorTable ss.length).append ((declares_sizeTable ss.length).append
          ((Declares.skip hblank).append ((declares_arr hname act).append
            (Declares.skip hendif)))))))
    exact hdeclares.byteTables_eq

/-! ### The arrays as instructions -/

/-- At most `n` instructions, one behind the other up to the end of the program. -/
def sweep (program : List Byte) : ℕ → ℕ → Option (List Instr)
  | 0, pc => if pc = program.length then some [] else none
  | n + 1, pc =>
    if pc = program.length then some []
    else
      match decode program pc with
      | (.ok i, pc') => (sweep program n pc').map (i :: ·)
      | (.error _, _) => none

/-- The instructions of a program that is made of whole instructions. -/
def disassemble (program : List Byte) : Option (List Instr) := sweep program program.length 0

theorem Instr.encode_pos (i : Instr) : 0 < i.encode.length := by
  simp [Instr.encode]

theorem length_le_assemble (code : List Instr) : code.length ≤ (assemble code).length := by
  induction code with
  | nil => exact Nat.zero_le _
  | cons i is ih =>
      have hpos := i.encode_pos
      have hcons : (assemble (i :: is)).length = i.encode.length + (assemble is).length := by
        simp [assemble]
      rw [hcons, List.length_cons]
      omega

theorem offset_lt {code : List Instr} {k : ℕ} (hk : k < code.length) :
    offset code k < (assemble code).length := by
  have hsplit : assemble code = assemble (code.take k) ++ assemble (code.drop k) := by
    rw [← assemble_append, List.take_append_drop]
  have hrest := length_le_assemble (code.drop k)
  rw [List.length_drop] at hrest
  rw [offset, hsplit, List.length_append]
  omega

theorem offset_length (code : List Instr) : offset code code.length = (assemble code).length := by
  rw [offset, List.take_length]

/-- From an instruction on, a sweep of an assembled program finds the rest of its code. -/
theorem sweep_offset {code : List Instr} (hcode : ∀ i ∈ code, i.Encodable) {n k : ℕ}
    (hk : k ≤ code.length) (hn : code.length ≤ k + n) :
    sweep (assemble code) n (offset code k) = some (code.drop k) := by
  induction n generalizing k with
  | zero =>
      obtain rfl : k = code.length := by omega
      rw [sweep, if_pos (offset_length code), List.drop_length]
  | succ n ih =>
      rcases Nat.eq_or_lt_of_le hk with rfl | hlt
      · rw [sweep, if_pos (offset_length code), List.drop_length]
      · have hget := List.getElem?_eq_getElem hlt
        have hd := decode_offset hget (hcode _ (List.getElem_mem hlt))
        rw [sweep, if_neg (Nat.ne_of_lt (offset_lt hlt)), hd]
        simp only [ih hlt (by omega), Option.map_some, List.getElem_cons_drop]

theorem disassemble_assemble {code : List Instr} (hcode : ∀ i ∈ code, i.Encodable) :
    disassemble (assemble code) = some code :=
  sweep_offset hcode (Nat.zero_le _) ((length_le_assemble code).trans (Nat.le_add_left _ _))

/-- The last instruction of a code jumps to its instruction `k`. -/
def LoopsTo (code : List Instr) (k : ℕ) : Prop :=
  ∃ back : I32, code.getLast? = some (.jmp back) ∧
    ((assemble code).length : ℤ) + back.toInt = offset code k

theorem FlowSpec.sensorCode_loopsTo (f : FlowSpec) (s : Sensor) : LoopsTo (f.sensorCode s) 8 := by
  refine ⟨.ofInt 32 s.back, rfl, ?_⟩
  have hjump := f.sensor_jump s
  have hend : offset (f.sensorCode s) 13 = (assemble (f.sensorCode s)).length := rfl
  have hback : (BitVec.ofInt 32 s.back).toInt = s.back := by
    by_cases hp : s.pollMs = 0 <;> simp [Sensor.back, sensorBody, hp]
  rw [hback, ← hend, hjump]

theorem actuatorCode_loopsTo : LoopsTo actuatorCode 0 := ⟨.ofInt 32 (-17), rfl, by decide⟩

/-- A reader of the header of any flow that compiles finds the compiled programs, and the
decoder finds in them the instructions that the compiler means, and nothing else. -/
theorem header_reads_back {flow : ErlTerm} {progs : List (List Byte)} {act : List Byte}
    (hvalid : validate flow = .ok ()) (hcompile : compileFlow flow = .ok (progs, act)) :
    ∃ (header : List Char) (f : FlowSpec) (ss : List ErlTerm) (first : ErlTerm)
      (rest : List ErlTerm),
      emitHeader flow progs act = .ok header ∧
      byteTables header = sensorTables 1 progs ++ [tableOf actuatorProgName act] ∧
      flow.key "sensors" = some (.list ss) ∧ List.Forall₂ Sensor.Describes f.sensors ss ∧
      flow.key "flows" = some (.list (first :: rest)) ∧ first.key "to" = some (pwm f.channel) ∧
      List.Forall₂ (fun s program => disassemble program = some (f.sensorCode s) ∧
        LoopsTo (f.sensorCode s) 8) f.sensors progs ∧
      disassemble act = some actuatorCode ∧ LoopsTo actuatorCode 0 := by
  obtain ⟨ss, fs, hss, hfs, -, hempty, hflows⟩ := compileFlow_valid hvalid
  cases fs with
  | nil =>
      rw [hempty rfl] at hcompile
      cases hcompile
  | cons first rest =>
      obtain ⟨f, hall, hto, hok⟩ := hflows first rest rfl
      rw [hok] at hcompile
      cases hcompile
      have hlen : (f.sensors.map f.sensorProgram).length = ss.length := by
        rw [List.length_map, hall.length_eq]
      obtain ⟨header, hemit, htables⟩ := emitHeader_declares hvalid hss hlen compileActuator
      refine ⟨header, f, ss, first, rest, hemit, htables, hss, hall, hfs, hto, ?_, ?_,
        actuatorCode_loopsTo⟩
      · rw [List.forall₂_map_right_iff, List.forall₂_same]
        intro s _
        refine ⟨?_, f.sensorCode_loopsTo s⟩
        rw [f.sensorProgram_eq s]
        exact disassemble_assemble (f.sensorCode_encodable s)
      · rw [actuatorProgram_eq]
        exact disassemble_assemble actuatorCode_encodable

theorem header_reads_back_fastPoll : ∃ (header : List Char) (f : FlowSpec),
    emitHeader (fastPoll 20) [compileSensor 1 0x39 0x92 20 0 2] compileActuator = .ok header ∧
    byteTables header = sensorTables 1 [compileSensor 1 0x39 0x92 20 0 2] ++
      [tableOf actuatorProgName compileActuator] ∧
    List.Forall₂ (fun s program => disassemble program = some (f.sensorCode s) ∧
      LoopsTo (f.sensorCode s) 8) f.sensors [compileSensor 1 0x39 0x92 20 0 2] := by
  have hvalid : validate (fastPoll 20) = .ok () := rfl
  have hcompile : compileFlow (fastPoll 20) =
    .ok ([compileSensor 1 0x39 0x92 20 0 2], compileActuator) := rfl
  obtain ⟨header, f, -, -, -, hemit, htables, -, -, -, -, hcode, -⟩ :=
    header_reads_back hvalid hcompile
  exact ⟨header, f, hemit, htables, hcode⟩

end MiniBeam
