/-
  `Smokeping/NFSping.pm`: the probe that runs `nfsping -C n -q` and reads its output.

  `ping` takes the lines of the standard error that begin with a host, a colon and a number.  No warning
  or error of a run is such a line (`isResult_errorLines`), the summary is one, and its columns are the
  times of the answers; `smokeping_ping` is the whole way from the options of the probe to what it reports.

  How the programs round is left open, as far as a time in hundredths of a millisecond is one of the
  nearest (`Rounding`).
-/
import NFStash.PingOptions
import NFStash.PingSummary
import NFStash.PingTables

namespace NFStash

open CLib Loops

/-! ## Model -/

/-- `" %.2f"` of a time in microseconds divided by 1000, in hundredths. -/
structure Rounding where
  hundredths : ℕ → ℕ
  mono : Monotone hundredths
  close : ∀ us < 2 ^ 53, 10 * hundredths us ≤ us + 5 ∧ us ≤ 10 * hundredths us + 5

/-- A number with two decimals. -/
def twoDecimals (n : ℕ) : CString :=
  Nat.toDigits 10 (n / 100) ++ ['.', Nat.digitChar (n / 10 % 10), Nat.digitChar (n % 10)]

section
variable (rounding : Rounding)

/-- The text of a column of `print_summary`, behind its space. -/
def columnWord : Option ℕ → CString
  | some us => twoDecimals (rounding.hundredths us)
  | none => "-".toList

/-- A line of `print_summary` in `fping` format. -/
def summaryLine (displayName : CString) (columns : List (Option ℕ)) : CString :=
  displayName ++ " :".toList ++ columns.flatMap fun column => ' ' :: columnWord rounding column

end

/-! ### Standard error -/

/-- A message of `rpc.c`: a function, a colon and what went wrong. -/
structure Message where
  word : CString
  rest : CString
  word_space : ∀ c ∈ word, isSpace c = false
  rest_head : ∀ c ∈ rest.head?, c ≠ ':' ∧ isSpace c = false

def Message.text (message : Message) : CString := message.word ++ ": ".toList ++ message.rest

/-- What other functions print, at each place of a trace. -/
structure Messages where
  /-- of `create_rpc_client` -/
  connect : ℕ → List Message
  /-- of `clnt_perror`, behind the name of the procedure -/
  reason : ℕ → CString
  /-- of `print_interval`, behind its first words -/
  loss : ℕ → CString
  /-- `localtime` -/
  clock : ℕ → ℕ × ℕ × ℕ

def twoDigits (n : ℕ) : CString := [Nat.digitChar (n / 10 % 10), Nat.digitChar (n % 10)]

/-- The warnings of `make_target` for the arguments of the command line. -/
def pingWarnings (cfg : PingConfig) (res : Resolver) (count : ℕ) : List Target → List CString → List String
  | _, [] => []
  | head, arg :: args =>
    match makeTarget res cfg.port cfg.reverseDns cfg.displayIps cfg.multiple none count head arg
      (arg.length + 1) with
    | .ok made => made.warning.toList ++ pingWarnings cfg res count made.targets args
    | .error _ => []

/-- `%s` of a display name. -/
def Target.shown (target : Target) : CString := target.displayed.getD "(null)".toList

section
variable (messages : Messages) (procedure : CString)

/-- The lines for an event. -/
def errorLines (n : ℕ) : PingEvent → List CString
  | .connect .. => (messages.connect n).map Message.text
  | .clntPerror target => [target.shown ++ " : ".toList ++ procedure ++ messages.reason n]
  | .interval target =>
    let (hour, minute, second) := messages.clock n
    ['[' :: twoDigits hour ++ ':' :: twoDigits minute ++ ':' :: twoDigits second ++ [']'],
      target.shown ++ " : xmt/rcv/%loss = ".toList ++ messages.loss n]
  | _ => []

/-- The lines of a run on its standard error, in `fping` format: the warnings of `make_target`, what goes
    wrong, and the summary. -/
def stderrLines (rounding : Rounding) (warnings : List String) (r : PingResult) : List CString :=
  warnings.map (·.toList.dropLast) ++
    r.state.trace.zipIdx.flatMap (fun event => errorLines messages procedure event.2 event.1) ++
    (r.state.targets.zip r.summary).map fun line => summaryLine rounding line.1.shown line.2

end

/-! ### The probe -/

/-- The probe: its properties, the times in milliseconds, and which targets have an address. -/
structure Probe where
  pings : ℕ
  blazemode : Bool := false
  timeout : Option ℕ := some 1000
  mininterval : ℕ := 1
  hertz : Option ℕ := some 1
  tcp : Bool := false
  addrlookup : CString → List String
  /-- `sprintf "%.10e"` -/
  sprintf : ℚ → CString

/-- A number in a command. -/
def perlText (n : ℕ) : CString := Nat.toDigits 10 n

/-- The pings that are sent: in blaze mode there is one more. -/
def Probe.count (probe : Probe) : ℕ := if probe.blazemode then probe.pings + 1 else probe.pings

/-- The options of `nfsping`. -/
def Probe.params (probe : Probe) : List PingOption :=
  [.C (perlText probe.count), .q] ++ (probe.timeout.map fun ms => .t (perlText ms)).toList ++
    [.i (perlText probe.mininterval)] ++ (probe.hertz.map fun hertz => .H (perlText hertz)).toList ++
    if probe.tcp then [.T] else []

def pingfactor : ℚ := 1000

/-- `/^\S+\s+:\s+[-\d\.]/`: every part ends where it has to. -/
def isResult (line : CString) : Bool :=
  let rest := line.dropWhile (!isSpace ·)
  let colon := rest.dropWhile isSpace
  let times := colon.tail.dropWhile isSpace
  line.head?.any (!isSpace ·) && rest.head?.any isSpace && colon.head? = some ':' &&
    colon.tail.head?.any isSpace && times.head?.any fun c => c = '-' || c.isDigit || c = '.'

/-- `split /\s+/`, of a line that does not begin with white space. -/
def splitSpace (line : CString) : List CString := (line.splitOnP isSpace).filter (· ≠ [])

/-- The number that a text without an exponent begins with. -/
def perlNumber (s : CString) : ℚ :=
  let whole := s.takeWhile Char.isDigit
  match s.dropWhile Char.isDigit with
  | '.' :: rest =>
    let decimals := rest.takeWhile Char.isDigit
    Nat.ofDigitChars 10 whole 0 + Nat.ofDigitChars 10 decimals 0 / 10 ^ decimals.length
  | _ => Nat.ofDigitChars 10 whole 0

/-- `/^\d/`. -/
def isNumber (field : CString) : Bool := field.head?.any Char.isDigit

/-- The times of a target, if there are any. -/
abbrev Rtts := String → Option (List CString)

section
variable (probe : Probe)

/-- `map {sprintf} sort {$a <=> $b} grep /^\d/`. -/
def Probe.times (fields : List CString) : List CString :=
  ((fields.filter isNumber).mergeSort fun a b => perlNumber a ≤ perlNumber b).map fun field =>
    probe.sprintf (perlNumber field / pingfactor)

/-- One line. -/
def Probe.readLine (rtts : Rtts) (line : CString) : Rtts :=
  if isResult line then
    match splitSpace line with
    | ip :: colon :: times =>
      if colon = [':'] then
        let times := probe.times (if probe.blazemode then times.tail else times)
        fun target => if target ∈ probe.addrlookup ip then some times else rtts target
      else rtts
    | _ => rtts
  else rtts

/-- `ping`, with the standard error of `nfsping`. -/
def Probe.ping (stderr : List CString) : Rtts := stderr.foldl probe.readLine fun _ => none

end

/-! ## Lines -/

section
variable {word rest : CString} {words : List CString} {rounding : Rounding} {n : ℕ}

theorem dropWhile_word (hword : ∀ c ∈ word, isSpace c = false) :
    (word ++ ' ' :: rest).dropWhile (!isSpace ·) = ' ' :: rest := by
  rw [List.dropWhile_append_of_pos fun c hc => by simp [hword c hc]]
  rfl

/-- A line is no result if its second word is not a colon, or if it goes on with a letter. -/
theorem isResult_word (hword : ∀ c ∈ word, isSpace c = false)
    (hrest : ∀ c ∈ (rest.dropWhile isSpace).head?, c = ':' →
      ∀ d ∈ ((rest.dropWhile isSpace).tail.dropWhile isSpace).head?, d ≠ '-' ∧ d.isDigit = false ∧ d ≠ '.') :
    isResult (word ++ ' ' :: rest) = false := by
  have hdrop : (' ' :: rest).dropWhile isSpace = rest.dropWhile isSpace := rfl
  rw [isResult, dropWhile_word hword, hdrop]
  generalize rest.dropWhile isSpace = gap at hrest
  by_contra htrue
  simp only [Bool.not_eq_false, Bool.and_eq_true, decide_eq_true_eq] at htrue
  obtain ⟨⟨⟨-, hcolon⟩, -⟩, htimes⟩ := htrue
  obtain ⟨d, hd, hchar⟩ := (Option.any_eq_true ..).1 htimes
  obtain ⟨h1, h2, h3⟩ := hrest ':' (Option.mem_def.2 hcolon) rfl d hd
  simp [h1, h2, h3] at hchar

theorem Message.isResult (message : Message) : NFStash.isResult message.text = false := by
  have htext : message.text = (message.word ++ [':']) ++ ' ' :: message.rest := by
    rw [Message.text, List.append_assoc, List.append_assoc]
    rfl
  have hword : ∀ c ∈ message.word ++ [':'], isSpace c = false :=
    List.forall_mem_append.2 ⟨message.word_space, List.forall_mem_singleton.2 (by decide)⟩
  rw [htext]
  refine isResult_word hword fun c hc hcolon => ?_
  -- the message itself comes after the space
  have hrest : message.rest.dropWhile isSpace = message.rest := by
    cases hmessage : message.rest with
    | nil => rfl
    | cons d rest =>
      have hhead := message.rest_head d (by simp [hmessage])
      rw [List.dropWhile_cons_of_neg (by simpa [hmessage] using hhead.2)]
  rw [hrest] at hc
  exact absurd hcolon (message.rest_head c hc).1

theorem letter_plain {c : Char} (h : 65 ≤ c.toNat) :
    isSpace c = false ∧ c ≠ '-' ∧ c.isDigit = false ∧ c ≠ '.' := by
  have hne : ∀ d : Char, d.toNat < 65 → c ≠ d := by
    rintro d hd rfl
    omega
  have hle : ¬ c ≤ '\r' := fun hle => absurd (show c.toNat ≤ 13 from hle) (by omega)
  have hnine : ¬ c.toNat ≤ 57 := by omega
  refine ⟨?_, hne '-' (by decide), ?_, hne '.' (by decide)⟩
  · simp [isSpace, hne ' ' (by decide), hle]
  · by_contra hdigit
    exact hnine (Char.isDigit_iff_toNat.1 (by simpa using hdigit)).2

/-- A line for a host, with a letter behind the colon. -/
theorem isResult_letter {host : CString} (hhost : ∀ c ∈ host, isSpace c = false) {letter : Char}
    (hletter : 65 ≤ letter.toNat) (rest : CString) :
    isResult (host ++ " : ".toList ++ letter :: rest) = false := by
  have hchar := letter_plain hletter
  have hline : host ++ " : ".toList ++ letter :: rest = host ++ ' ' :: (':' :: ' ' :: letter :: rest) := by
    rw [List.append_assoc]
    rfl
  have htimes : ((':' :: ' ' :: letter :: rest).dropWhile isSpace).tail.dropWhile isSpace = letter :: rest := by
    rw [List.dropWhile_cons_of_neg (by decide), List.tail_cons, List.dropWhile_cons_of_pos (by decide),
      List.dropWhile_cons_of_neg (by simp [hchar.1])]
  rw [hline]
  refine isResult_word hhost fun c _ _ d hd => ?_
  rw [htimes] at hd
  obtain rfl := Option.some.inj hd
  exact hchar.2

/-- The fields of a line of words. -/
theorem splitSpace_words (hword : word ≠ [] ∧ ∀ c ∈ word, isSpace c = false)
    (hwords : ∀ w ∈ words, w ≠ [] ∧ ∀ c ∈ w, isSpace c = false) :
    splitSpace (word ++ words.flatMap (' ' :: ·)) = word :: words := by
  induction words generalizing word with
  | nil =>
    rw [List.flatMap_nil, List.append_nil, splitSpace, List.splitOnP_eq_singleton hword.2]
    simp [hword.1]
  | cons w words ih =>
    rw [List.forall_mem_cons] at hwords
    have hrest := ih hwords.1 hwords.2
    rw [splitSpace] at hrest
    rw [List.flatMap_cons, List.cons_append, splitSpace,
      List.splitOnP_append_cons_of_forall_mem hword.2 ' ' (by decide),
      List.filter_cons_of_pos (by simp [hword.1]),
      hrest]

/-! ## Numbers -/

/-- No digit is white space. -/
theorem isSpace_digit {c : Char} (h : c.isDigit = true) : isSpace c = false := by
  have hzero : 48 ≤ c.toNat := (Char.isDigit_iff_toNat.1 h).1
  have hspace : c ≠ ' ' := by
    rintro rfl
    exact absurd hzero (by decide)
  have hle : ¬ c ≤ '\r' := fun hle => absurd (show c.toNat ≤ 13 from hle) (by omega)
  simp [isSpace, hspace, hle]

theorem isDigit_mod (k : ℕ) : (Nat.digitChar (k % 10)).isDigit = true := by
  rw [Nat.isDigit_digitChar]
  exact decide_eq_true (Nat.mod_lt k (by decide))

/-- A number is a word that begins with a digit. -/
theorem twoDecimals_word (n : ℕ) : twoDecimals n ≠ [] ∧ (∀ c ∈ twoDecimals n, isSpace c = false) ∧
    isNumber (twoDecimals n) = true := by
  have hdigits : ∀ c ∈ Nat.toDigits 10 (n / 100), c.isDigit = true :=
    fun c hc => Nat.isDigit_of_mem_toDigits (by decide) (by decide) hc
  refine ⟨by simp [twoDecimals], ?_, ?_⟩
  · refine List.forall_mem_append.2 ⟨fun c hc => isSpace_digit (hdigits c hc), ?_⟩
    simp [isSpace_digit (isDigit_mod _), show isSpace '.' = false by decide]
  · obtain ⟨c, cs, hcs⟩ := List.exists_cons_of_ne_nil (Nat.toDigits_ne_nil (n := n / 100) (b := 10))
    rw [isNumber, twoDecimals, hcs, List.cons_append, List.head?_cons, Option.any_some]
    exact hdigits c (by rw [hcs]; exact List.mem_cons_self)

/-- The number that is read back. -/
theorem perlNumber_twoDecimals (n : ℕ) : perlNumber (twoDecimals n) = n / 100 := by
  have hdigits : ∀ c ∈ Nat.toDigits 10 (n / 100), c.isDigit = true :=
    fun c hc => Nat.isDigit_of_mem_toDigits (by decide) (by decide) hc
  have hpoint : Char.isDigit '.' = false := by decide
  have htake : (twoDecimals n).takeWhile Char.isDigit = Nat.toDigits 10 (n / 100) := by
    rw [twoDecimals, List.takeWhile_append_of_pos hdigits, List.takeWhile_cons_of_neg (by simp [hpoint]),
      List.append_nil]
  have hdrop : (twoDecimals n).dropWhile Char.isDigit =
      ['.', Nat.digitChar (n / 10 % 10), Nat.digitChar (n % 10)] := by
    rw [twoDecimals, List.dropWhile_append_of_pos hdigits, List.dropWhile_cons_of_neg (by simp [hpoint])]
  have hdecimals : [Nat.digitChar (n / 10 % 10), Nat.digitChar (n % 10)].takeWhile Char.isDigit =
      [Nat.digitChar (n / 10 % 10), Nat.digitChar (n % 10)] := by
    rw [List.takeWhile_cons_of_pos (isDigit_mod _), List.takeWhile_cons_of_pos (isDigit_mod _)]
    rfl
  have hvalue : Nat.ofDigitChars 10 [Nat.digitChar (n / 10 % 10), Nat.digitChar (n % 10)] 0 = n % 100 := by
    rw [Nat.ofDigitChars_cons_digitChar_of_lt_ten (Nat.mod_lt _ (by decide)),
      Nat.ofDigitChars_cons_digitChar_of_lt_ten (Nat.mod_lt _ (by decide)), Nat.ofDigitChars_nil]
    omega
  have hsplit : (n : ℚ) = (100 * (n / 100) + n % 100 : ℕ) := by rw [Nat.div_add_mod]
  rw [perlNumber, htake, hdrop]
  simp only [hdecimals, hvalue, Nat.ofDigitChars_ten_toDigits, List.length_cons, List.length_nil]
  rw [hsplit]
  push_cast
  ring

end

/-! ## Results -/

section
variable {rounding : Rounding} {columns : List (Option ℕ)} {host : CString} {probe : Probe} {us : ℕ}

/-- The times of the columns. -/
def columnTimes (columns : List (Option ℕ)) : List ℕ := columns.filterMap id

theorem columnWord_none : columnWord rounding none = ['-'] := rfl

theorem columnWord_word (column : Option ℕ) :
    columnWord rounding column ≠ [] ∧ ∀ c ∈ columnWord rounding column, isSpace c = false := by
  cases column with
  | some us => exact ⟨(twoDecimals_word _).1, (twoDecimals_word _).2.1⟩
  | none =>
    rw [columnWord_none]
    exact ⟨by decide, List.forall_mem_singleton.2 rfl⟩

/-- A column begins as the probe expects it. -/
theorem columnWord_head (column : Option ℕ) : ∃ c cs, columnWord rounding column = c :: cs ∧
    isSpace c = false ∧ (c = '-' || c.isDigit || c = '.') = true := by
  obtain ⟨c, cs, hword⟩ := List.exists_cons_of_ne_nil (@columnWord_word rounding column).1
  refine ⟨c, cs, hword, (columnWord_word column).2 c (by rw [hword]; exact List.mem_cons_self), ?_⟩
  cases column with
  | some us =>
    have hdigit := (twoDecimals_word (rounding.hundredths us)).2.2
    change columnWord rounding (some us) = _ at hword
    rw [columnWord] at hword
    rw [isNumber, hword, List.head?_cons, Option.any_some] at hdigit
    simp [hdigit]
  | none =>
    rw [columnWord_none] at hword
    obtain ⟨rfl, -⟩ := List.cons.inj hword
    rfl

/-- A line for a host, with a number behind the colon. -/
theorem isResult_number (hhost : host ≠ [] ∧ ∀ c ∈ host, isSpace c = false) {c : Char} (rest : CString)
    (hspace : isSpace c = false) (hchar : (c = '-' || c.isDigit || c = '.') = true) :
    isResult (host ++ ' ' :: ':' :: ' ' :: c :: rest) = true := by
  have hgap : (' ' :: ':' :: ' ' :: c :: rest).dropWhile isSpace = ':' :: ' ' :: c :: rest := rfl
  have htimes : (' ' :: c :: rest).dropWhile isSpace = c :: rest := by
    rw [List.dropWhile_cons_of_pos (by decide), List.dropWhile_cons_of_neg (by simp [hspace])]
  obtain ⟨d, ds, rfl⟩ := List.exists_cons_of_ne_nil hhost.1
  rw [isResult, dropWhile_word hhost.2, hgap]
  simp only [List.tail_cons, htimes, List.cons_append, List.head?_cons, Option.any_some, hchar,
    hhost.2 d List.mem_cons_self]
  rfl

/-- A summary with columns is a result. -/
theorem isResult_summaryLine (hhost : host ≠ [] ∧ ∀ c ∈ host, isSpace c = false) (hne : columns ≠ []) :
    isResult (summaryLine rounding host columns) = true := by
  obtain ⟨column, columns, rfl⟩ := List.exists_cons_of_ne_nil hne
  obtain ⟨c, cs, hword, hspace, hchar⟩ := @columnWord_head rounding column
  have hline : summaryLine rounding host (column :: columns) =
      host ++ ' ' :: ':' :: ' ' :: c ::
        (cs ++ columns.flatMap fun column => ' ' :: columnWord rounding column) := by
    simp [summaryLine, hword]
  rw [hline]
  exact isResult_number hhost _ hspace hchar

/-- The fields of a summary. -/
theorem splitSpace_summaryLine (hhost : host ≠ [] ∧ ∀ c ∈ host, isSpace c = false) :
    splitSpace (summaryLine rounding host columns) = host :: [':'] :: columns.map (columnWord rounding) := by
  have hline : summaryLine rounding host columns =
      host ++ ([':'] :: columns.map (columnWord rounding)).flatMap (' ' :: ·) := by
    simp [summaryLine, List.flatMap_map]
  rw [hline]
  refine splitSpace_words hhost (List.forall_mem_cons.2 ⟨⟨by decide, List.forall_mem_singleton.2 rfl⟩, ?_⟩)
  rw [List.forall_mem_map]
  exact fun column _ => columnWord_word column

/-- `grep /^\d/`. -/
theorem filter_columnWord (columns : List (Option ℕ)) :
    (columns.map (columnWord rounding)).filter isNumber =
      (columnTimes columns).map fun us => twoDecimals (rounding.hundredths us) := by
  induction columns with
  | nil => rfl
  | cons column columns ih =>
    rw [List.map_cons]
    cases column with
    | some us =>
      have hnumber : isNumber (columnWord rounding (some us)) = true := (twoDecimals_word _).2.2
      rw [List.filter_cons_of_pos hnumber, ih]
      rfl
    | none =>
      rw [columnWord_none, List.filter_cons_of_neg (by decide), ih]
      rfl

/-- What the probe makes of a time. -/
def Probe.time (probe : Probe) (rounding : Rounding) (us : ℕ) : CString :=
  probe.sprintf (rounding.hundredths us / 100 / pingfactor)

/-- **Sorting**: the numbers of the fields in their order are those of the times in theirs. -/
theorem Probe.times_columns (columns : List (Option ℕ)) :
    probe.times (columns.map (columnWord rounding)) =
      ((columnTimes columns).mergeSort (· ≤ ·)).map (probe.time rounding) := by
  let value : ℕ → ℚ := fun us => rounding.hundredths us / 100
  have hvalue : ∀ us, perlNumber (twoDecimals (rounding.hundredths us)) = value us :=
    fun us => perlNumber_twoDecimals _
  have hmono : Monotone value := by
    intro us us' hle
    have hnat : (rounding.hundredths us : ℚ) ≤ rounding.hundredths us' := by exact_mod_cast rounding.mono hle
    exact div_le_div_of_nonneg_right hnat (by norm_num)
  set fields := (columnTimes columns).map fun us => twoDecimals (rounding.hundredths us) with hfields
  have hsorted : ((fields.mergeSort fun a b => perlNumber a ≤ perlNumber b).map perlNumber) =
      ((columnTimes columns).mergeSort (· ≤ ·)).map value := by
    refine @List.Perm.eq_of_pairwise ℚ (· ≤ ·) _ _ (fun a b _ _ h h' => le_antisymm h h') ?_ ?_ ?_
    · rw [List.pairwise_map]
      have hpairs := @List.pairwise_mergeSort CString (fun a b => decide (perlNumber a ≤ perlNumber b))
        (fun a b c h h' => by simpa using le_trans (by simpa using h) (by simpa using h'))
        (fun a b => by simpa using le_total (perlNumber a) (perlNumber b)) fields
      exact hpairs.imp fun h => by simpa using h
    · rw [List.pairwise_map]
      have hpairs := @List.pairwise_mergeSort ℕ (fun a b => decide (a ≤ b))
        (fun a b c h h' => by simpa using le_trans (by simpa using h) (by simpa using h'))
        (fun a b => by simpa using le_total a b) (columnTimes columns)
      exact hpairs.imp fun h => hmono (by simpa using h)
    · calc (fields.mergeSort fun a b => perlNumber a ≤ perlNumber b).map perlNumber
          |>.Perm (fields.map perlNumber) := (List.mergeSort_perm _ _).map _
        _ = (columnTimes columns).map value := by
            rw [hfields, List.map_map]
            exact List.map_congr_left fun us _ => hvalue us
        _ |>.Perm (((columnTimes columns).mergeSort (· ≤ ·)).map value) :=
          ((List.mergeSort_perm _ _).map _).symm
  have hout := congrArg (List.map fun q => probe.sprintf (q / pingfactor)) hsorted
  rw [List.map_map, List.map_map] at hout
  rw [Probe.times, filter_columnWord]
  exact hout

end

/-! ## What a run prints -/

/-- The host is the only target that is printed. -/
def Shown (host : CString) (tr : List PingEvent) : Prop :=
  ∀ event ∈ tr, ∀ target ∈ event.target?, target.displayed = some host

section
variable {cfg : PingConfig} {env : PingEnv} {host : CString} {r j : ℕ} {t t' : Target} {run run' : PingRun}
  {status : Option ℕ} {tr tr' : List PingEvent}

theorem shown_append : Shown host (tr ++ tr') ↔ Shown host tr ∧ Shown host tr' := List.forall_mem_append

theorem shown_nil : Shown host [] := List.forall_mem_nil _

theorem shown_none {event : PingEvent} (h : event.target? = none) : Shown host [event] := by
  refine List.forall_mem_singleton.2 fun target htarget => ?_
  rw [h] at htarget
  exact absurd htarget (Option.not_mem_none target)

theorem shown_target {event : PingEvent} (h : event.target? = some t) (ht : t.displayed = some host) :
    Shown host [event] := by
  refine List.forall_mem_singleton.2 fun u hu => ?_
  obtain rfl : t = u := Option.some.inj (h.symm.trans hu)
  exact ht

theorem pingConnect_shown (hrun : Shown host run.trace) (ht : t.displayed = some host)
    (h : pingConnect env j t run = (t', run')) : Shown host run'.trace ∧ t'.displayed = some host := by
  unfold pingConnect at h
  split_ifs at h
  · obtain ⟨rfl, rfl⟩ := Prod.mk.inj h
    exact ⟨hrun, ht⟩
  · obtain ⟨rfl, rfl⟩ := Prod.mk.inj h
    exact ⟨shown_append.2 ⟨hrun, shown_none rfl⟩, ht⟩

/-- The name is none of the fields that an answer is recorded in. -/
theorem pingRecord_displayed {us n : ℕ} (h : pingRecord cfg us n t = .ok t') : t'.displayed = t.displayed := by
  simp only [pingRecord] at h
  by_cases hformat : cfg.format = .fping
  · rw [if_pos hformat] at h
    obtain ⟨results, -, h⟩ := bind_eq_ok.1 h
    obtain rfl := Except.ok.inj h
    rfl
  · rw [if_neg hformat] at h
    obtain rfl := Except.ok.inj h
    rfl

theorem pingOutcome_shown (hrun : Shown host run.trace) (ht : t.displayed = some host)
    (h : pingOutcome cfg env status t run = .ok (t', run')) :
    Shown host run'.trace ∧ t'.displayed = some host := by
  cases status with
  | some us =>
    obtain ⟨u, hu, h⟩ := bind_eq_ok.1 h
    obtain ⟨rfl, rfl⟩ := Prod.mk.inj (Except.ok.inj h)
    have hu := (pingRecord_displayed hu).trans ht
    refine ⟨shown_append.2 ⟨hrun, ?_⟩, hu⟩
    split_ifs
    · exact shown_nil
    · exact shown_target rfl hu
  | none =>
    have heq := Except.ok.inj h
    have hlost : Shown host (run.trace ++ [.lost t]) := shown_append.2 ⟨hrun, shown_target rfl ht⟩
    unfold pingFailure at heq
    dsimp only at heq
    split_ifs at heq
    · obtain ⟨rfl, rfl⟩ := Prod.mk.inj heq
      exact ⟨shown_append.2 ⟨hlost, shown_target rfl ht⟩, ht⟩
    · obtain ⟨rfl, rfl⟩ := Prod.mk.inj heq
      exact ⟨hlost, ht⟩

theorem pingInterval_shown (hrun : Shown host run.trace) (ht : t.displayed = some host)
    (h : pingInterval cfg t run = .ok (t', run')) : Shown host run'.trace ∧ t'.displayed = some host := by
  rcases pingInterval_ok h with ⟨rfl, rfl⟩ | ⟨rfl, rfl⟩
  · exact ⟨hrun, ht⟩
  · refine ⟨shown_append.2 ⟨hrun, shown_target rfl ht⟩, ?_⟩
    unfold resetCounters
    split_ifs
    · exact ht
    · exact ht

/-- **One turn** prints its target only. -/
theorem pingTarget_shown (hrun : Shown host run.trace) (ht : t.displayed = some host)
    (h : pingTarget cfg env r j t run = .ok (t', run')) :
    Shown host run'.trace ∧ t'.displayed = some host := by
  obtain ⟨t₁, run₁, t₂, run₂, t₃, hconnect, houtcome, hinterval, rfl⟩ := pingTarget_ok.1 h
  obtain ⟨hrun₁, ht₁⟩ := pingConnect_shown hrun ht hconnect
  have hsent : ({ t₁ with sent := wrap32 (t₁.sent + 1) } : Target).displayed = some host := ht₁
  obtain ⟨hrun₂, ht₂⟩ := pingOutcome_shown (shown_append.2 ⟨hrun₁, shown_none rfl⟩) hsent houtcome
  obtain ⟨hrun₃, ht₃⟩ := pingInterval_shown hrun₂ ht₂ hinterval
  exact ⟨hrun₃, ht₃⟩

/-- The targets show the host, and so does all that has been printed. -/
structure ShowsHost (host : CString) (s : PingState) : Prop where
  targets : ∀ t ∈ s.targets, t.displayed = some host
  trace : Shown host s.trace

theorem pingRound_shows {s s' : PingState} (hs : ShowsHost host s) (h : pingRound cfg env r s = .ok s') :
    ShowsHost host s' := by
  unfold pingRound at h
  obtain ⟨⟨targets, run⟩, hw, h⟩ := bind_eq_ok.1 h
  obtain rfl := Except.ok.inj h
  have hturn : ∀ k t run t' run', s.targets[k]? = some t → Shown host run.trace →
      pingTarget cfg env r (0 + k) t run = .ok (t', run') →
      Shown host run'.trace ∧ t'.displayed = some host := by
    intro k t run t' run' ht hrun hstep
    exact pingTarget_shown hrun (hs.targets t (List.mem_of_getElem? ht)) hstep
  obtain ⟨htrace, hlen, hall⟩ := walk_spec (P := fun _ run => Shown host run.trace)
    (fun k t run t' run' ht hrun hstep => (hturn k t run t' run' ht hrun hstep).1) hs.trace hw
  refine ⟨fun t' ht' => ?_, htrace⟩
  obtain ⟨k, hk⟩ := List.mem_iff_getElem?.1 ht'
  have hlt : k < s.targets.length := hlen ▸ (List.getElem?_eq_some_iff.1 hk).1
  obtain ⟨u, run₁, run₂, hu, hrun₁, hstep⟩ := hall k _ (List.getElem?_eq_getElem hlt)
  obtain rfl : u = t' := Option.some.inj (hu.symm.trans hk)
  exact (hturn k _ run₁ u run₂ (List.getElem?_eq_getElem hlt) hrun₁ hstep).2

/-- **Whole runs.** -/
theorem pingLoop_shows {fuel : ℕ} {ts : List Target} {s : PingState}
    (hts : ∀ t ∈ ts, t.displayed = some host) (h : pingLoop cfg env fuel ts = .ok (some s)) :
    ShowsHost host s :=
  pingLoop_inv (fun _ _ _ hs hround => pingRound_shows hs hround) ⟨hts, shown_nil⟩ h

/-- A round over some targets has a ping. -/
theorem pingRound_pings {s s' : PingState} (hne : s'.targets ≠ []) (h : pingRound cfg env r s = .ok s') :
    pings s'.trace ≠ [] := by
  unfold pingRound at h
  obtain ⟨⟨targets, run⟩, hw, h⟩ := bind_eq_ok.1 h
  obtain rfl := Except.ok.inj h
  obtain ⟨hpings, hlen, -⟩ := walk_spec (P := fun k run => k ≠ 0 → pings run.trace ≠ [])
    (fun k t run t' run' _ _ hstep _ => by
      obtain ⟨t₁, run₁, -, htrace⟩ := pingTarget_pings hstep
      rw [htrace]
      exact List.append_ne_nil_of_right_ne_nil _ (List.cons_ne_nil _ _))
    (fun h0 => absurd rfl h0) hw
  refine hpings fun h0 => hne ?_
  exact List.length_eq_zero_iff.1 (hlen.trans h0)

theorem pingLoop_pings {fuel : ℕ} {ts : List Target} {s : PingState} (hne : s.targets ≠ []) (hts : ts ≠ [])
    (h : pingLoop cfg env fuel ts = .ok (some s)) : pings s.trace ≠ [] := by
  obtain ⟨n, hrounds⟩ := pingLoop_rounds hts h
  obtain ⟨s', -, hlast⟩ := rounds_last.1 hrounds
  exact pingRound_pings hne hlast

end

/-! ## The standard error -/

section
variable {messages : Messages} {procedure host line : CString} {rounding : Rounding} {n : ℕ} {event : PingEvent}
  {tr : List PingEvent} {probe : Probe} {columns : List (Option ℕ)}

theorem shown_of_displayed {t : Target} (h : t.displayed = some host) : t.shown = host := by
  rw [Target.shown, h, Option.getD_some]

/-- A line of one word. -/
theorem isResult_spaceless {word : CString} (hword : ∀ c ∈ word, isSpace c = false) :
    isResult word = false := by
  have hrest : word.dropWhile (!isSpace ·) = [] := List.dropWhile_eq_nil_iff.2 fun c hc => by simp [hword c hc]
  rw [isResult, hrest]
  simp

theorem twoDigits_spaceless (n : ℕ) : ∀ c ∈ twoDigits n, isSpace c = false := by
  refine List.forall_mem_cons.2 ⟨isSpace_digit (isDigit_mod _), List.forall_mem_singleton.2 ?_⟩
  exact isSpace_digit (isDigit_mod n)

/-- **No line for an event is a result**, of a host without white space and a procedure whose name begins
    with a letter. -/
theorem isResult_errorLines (hhost : ∀ c ∈ host, isSpace c = false)
    (hprocedure : ∃ letter rest, procedure = letter :: rest ∧ 65 ≤ letter.toNat)
    (hevent : ∀ target ∈ event.target?, target.displayed = some host)
    (h : line ∈ errorLines messages procedure n event) : isResult line = false := by
  cases event with
  | connect target ok =>
    obtain ⟨message, -, rfl⟩ := List.mem_map.1 h
    exact message.isResult
  | clntPerror target =>
    obtain ⟨letter, rest, rfl, hletter⟩ := hprocedure
    obtain rfl := List.mem_singleton.1 h
    rw [shown_of_displayed (hevent target rfl), List.append_assoc]
    exact isResult_letter hhost hletter _
  | interval target =>
    rcases List.mem_cons.1 h with rfl | h
    · refine isResult_spaceless ?_
      simp only [List.cons_append, List.mem_cons, List.mem_append, List.not_mem_nil, or_false, or_assoc]
      rintro c (rfl | hc | rfl | hc | rfl | hc | rfl)
      · decide
      · exact twoDigits_spaceless _ c hc
      · decide
      · exact twoDigits_spaceless _ c hc
      · decide
      · exact twoDigits_spaceless _ c hc
      · decide
    · obtain rfl := List.mem_singleton.1 h
      have hline : target.shown ++ " : xmt/rcv/%loss = ".toList ++ messages.loss n =
          host ++ " : ".toList ++ 'x' :: ("mt/rcv/%loss = ".toList ++ messages.loss n) := by
        rw [shown_of_displayed (hevent target rfl), List.append_assoc, List.append_assoc]
        rfl
      rw [hline]
      exact isResult_letter hhost (by decide) _
  | ping round target status => cases h
  | result target us => cases h
  | lost target => cases h

theorem isResult_warning (targetName ipAddress : CString) :
    isResult (multipleWarning targetName ipAddress).toList.dropLast = false := by
  obtain ⟨rest, hrest⟩ : ∃ rest, (multipleWarning targetName ipAddress).toList.dropLast =
      "Multiple addresses found for ".toList ++ rest := by
    -- the equation of the definition is expensive to prove
    delta multipleWarning
    rw [String.toList_append, List.dropLast_append_of_ne_nil (by simp)]
    simp only [String.toList_append, String.toList_ofList, List.append_assoc]
    exact ⟨_, rfl⟩
  have hstart : "Multiple addresses found for ".toList =
      "Multiple".toList ++ ' ' :: 'a' :: "ddresses found for ".toList :=
    rfl
  have hword : ∀ c ∈ "Multiple".toList, isSpace c = false := by simp [isSpace]
  rw [hrest, hstart, List.append_assoc, List.cons_append, List.cons_append]
  refine isResult_word hword fun c hc hcolon => ?_
  rw [List.dropWhile_cons_of_neg (by decide), List.head?_cons, Option.mem_some_iff] at hc
  rw [← hc] at hcolon
  exact absurd hcolon (by decide)

theorem readLine_of_not_isResult {rtts : Rtts} (h : isResult line = false) :
    probe.readLine rtts line = rtts := by
  rw [Probe.readLine, h]
  rfl

theorem ping_of_not_isResult {lines : List CString} (rtts : Rtts) (h : ∀ line ∈ lines, isResult line = false) :
    lines.foldl probe.readLine rtts = rtts := by
  induction lines with
  | nil => rfl
  | cons line lines ih =>
    rw [List.forall_mem_cons] at h
    rw [List.foldl_cons, readLine_of_not_isResult h.1, ih h.2]

/-- The columns that count. -/
def Probe.counted (probe : Probe) (columns : List (Option ℕ)) : List (Option ℕ) :=
  if probe.blazemode then columns.tail else columns

/-- The times that the probe reports for the columns. -/
def Probe.reported (probe : Probe) (rounding : Rounding) (columns : List (Option ℕ)) : List CString :=
  ((columnTimes (probe.counted columns)).mergeSort (· ≤ ·)).map (probe.time rounding)

/-- A summary is reported for the targets of its host. -/
theorem readLine_summaryLine (rtts : Rtts) (hhost : host ≠ [] ∧ ∀ c ∈ host, isSpace c = false)
    (hne : columns ≠ []) (target : String) :
    probe.readLine rtts (summaryLine rounding host columns) target =
      if target ∈ probe.addrlookup host then some (probe.reported rounding columns) else rtts target := by
  have hfields : (if probe.blazemode then (columns.map (columnWord rounding)).tail
      else columns.map (columnWord rounding)) = (probe.counted columns).map (columnWord rounding) := by
    unfold Probe.counted
    split_ifs
    · rw [List.map_tail]
    · rfl
  rw [Probe.readLine, if_pos (isResult_summaryLine hhost hne), splitSpace_summaryLine hhost]
  simp only [if_true, hfields, Probe.times_columns]
  rfl

end

/-! ## The command -/

section
variable {cfg : PingConfig} {env : PingEnv} {res : Resolver} {address : CString} {count n : ℕ} {o : PingOption}
  {opts : List PingOption} {s s' : PingSettings} {procs : NullProcs} {probe : Probe}

/-- `strtoul` reads a number back. -/
theorem strtoul_perlText (n : ℕ) : strtoul (perlText n) = min n ULONG_MAX := by
  have hdigits : ∀ c ∈ perlText n, c.isDigit = true :=
    fun c hc => Nat.isDigit_of_mem_toDigits (by decide) (by decide) hc
  have hdecimal : decimal (perlText n) = n := by
    rw [decimal, List.takeWhile_eq_self_iff.2 hdigits]
    exact Nat.ofDigitChars_ten_toDigits
  obtain ⟨c, cs, hcs⟩ := List.exists_cons_of_ne_nil (Nat.toDigits_ne_nil (n := n) (b := 10))
  have hdigit : c.isDigit = true := hdigits c (by rw [perlText, hcs]; exact List.mem_cons_self)
  have hspace : (perlText n).dropWhile isSpace = perlText n := by
    rw [perlText, hcs, List.dropWhile_cons_of_neg (by simp [isSpace_digit hdigit])]
  have hminus : c ≠ '-' := by
    rintro rfl
    cases hdigit
  have hplus : c ≠ '+' := by
    rintro rfl
    cases hdigit
  rw [strtoul, hspace]
  split
  · rename_i s hs
    rw [perlText, hcs] at hs
    exact absurd (List.cons.inj hs).1 hminus
  · rename_i s hs
    rw [perlText, hcs] at hs
    exact absurd (List.cons.inj hs).1 hplus
  · rw [hdecimal]

/-- The options that the probe gives after `-C`. -/
def PingOption.OfProbe : PingOption → Prop
  | .q | .t _ | .i _ | .H _ | .T => True
  | _ => False

/-- The settings for `n` pings in `fping` format. -/
structure PingSettings.Fping (n : ℕ) (s : PingSettings) : Prop where
  format : s.format = some .fping
  count : s.count = n
  loop : s.loop = false
  multiple : s.multiple = false
  reverseDns : s.reverseDns = false
  displayIps : s.displayIps = false

theorem pingOption_fping (ho : o.OfProbe) (hs : s.Fping n) (h : pingOption o s = .ok s') : s'.Fping n := by
  obtain ⟨h1, h2, h3, h4, h5, h6⟩ := hs
  cases o with
  | q | i | T =>
    obtain rfl := Except.ok.inj h
    exact ⟨h1, h2, h3, h4, h5, h6⟩
  | t | H =>
    simp only [pingOption] at h
    split_ifs at h
    obtain rfl := Except.ok.inj h
    exact ⟨h1, h2, h3, h4, h5, h6⟩
  | _ => exact ho.elim

theorem readOptions_fping (hopts : ∀ o ∈ opts, o.OfProbe) (hs : s.Fping n)
    (h : readOptions pingOption opts s = .ok s') : s'.Fping n := by
  refine readOptions_inv (P := fun done s => (∀ o ∈ done, o.OfProbe) → s.Fping n) ?_ (fun _ => hs) h hopts
  intro done o t t' ht hstep hall
  rw [List.forall_mem_append, List.forall_mem_singleton] at hall
  exact pingOption_fping hall.2 (ht hall.1) hstep

/-- **The settings for the options of the probe.** -/
theorem pingOptions_params (h : pingOptions probe.params = .ok s) :
    s.Fping probe.count ∧ probe.count ≠ 0 ∧ probe.count < ULONG_MAX := by
  unfold pingOptions at h
  obtain ⟨s₁, h₁, h⟩ := bind_eq_ok.1 h
  dsimp only at h
  split_ifs at h
  obtain rfl := Except.ok.inj h
  obtain ⟨s₂, h₂, h₁⟩ := bind_eq_ok.1 h₁
  obtain ⟨count, hcount, h₂⟩ := bind_eq_ok.1 h₂
  obtain rfl := Except.ok.inj h₂
  have hlimits := countArg_ok hcount
  have heq : count = probe.count := by
    simp only [countArg, strtoul_perlText] at hcount
    split_ifs at hcount
    obtain rfl := Except.ok.inj hcount
    omega
  have hrest : ∀ o ∈ probe.params.tail, o.OfProbe := by
    simp only [Probe.params, List.cons_append, List.tail_cons, List.nil_append, List.mem_append, List.mem_cons,
      Option.mem_toList, Option.map_eq_some_iff, List.not_mem_nil, or_false]
    rintro o (rfl | ((⟨ms, -, rfl⟩ | rfl) | ⟨hertz, -, rfl⟩) | ho)
    · trivial
    · trivial
    · trivial
    · trivial
    · split_ifs at ho
      · obtain rfl := List.mem_singleton.1 ho
        trivial
      · cases ho
  obtain ⟨f1, f2, f3, f4, f5, f6⟩ := readOptions_fping hrest ⟨rfl, heq, rfl, rfl, rfl, rfl⟩ h₁
  rw [heq] at hlimits
  refine ⟨⟨?_, f2, ?_, f4, f5, f6⟩, hlimits.1, hlimits.2⟩
  · rw [PingSettings.defaults, f1]
    rfl
  · simp [PingSettings.defaults, f2, f3, hlimits.1]

/-- The names in the table begin with a letter. -/
theorem dispatch_letter (h : s.dispatch = .ok (.ok procs)) :
    ∃ letter rest, procs.name.toList = letter :: rest ∧ 65 ≤ letter.toNat := by
  have hnames : ∀ d ∈ nullDispatch, d.value.name.toList.head?.any (65 ≤ ·.toNat) = true := by decide
  have hmem : ∃ d ∈ nullDispatch, d.value = procs := by
    unfold PingSettings.dispatch at h
    obtain ⟨found, hat, h⟩ := bind_eq_ok.1 h
    cases found with
    | none => cases h
    | some procs' =>
      obtain rfl := Except.ok.inj (Except.ok.inj h)
      unfold nullDispatchAt at hat
      dsimp only at hat
      split_ifs at hat
      obtain ⟨d, hd, hvalue⟩ := Option.map_eq_some_iff.1 (Except.ok.inj hat)
      exact ⟨d, List.mem_of_find?_eq_some hd, hvalue⟩
  obtain ⟨d, hd, rfl⟩ := hmem
  obtain ⟨letter, hletter, hle⟩ := (Option.any_eq_true ..).1 (hnames d hd)
  obtain ⟨rest, hrest⟩ := List.head?_eq_some_iff.1 hletter
  exact ⟨letter, rest, hrest, by simpa using hle⟩

end

/-! ## The target -/

section
variable {cfg : PingConfig} {env : PingEnv} {res : Resolver} {address : CString} {count room : ℕ}
  {head ts : List Target} {made : MakeTargetRes}

/-- Without `-A`, `-d` and `-m` a new target shows the argument it is made for. -/
theorem madeTarget_displayed {ip : InAddr} {t : Target} (hlen : address.length < NI_MAXHOST) :
    (madeTarget res false false none count address ip t).displayed = some address := by
  cases hliteral : (inetPton address).isSome with
  | true =>
    have hshort : address.length ≤ INET_ADDRSTRLEN := (inetPton_length hliteral).trans (by decide)
    rw [madeTarget, if_pos hliteral]
    exact congrArg some (strncpy_of_lt hshort)
  | false =>
    rw [madeTarget, if_neg (by simp [hliteral])]
    exact congrArg some (strncpy_of_lt hlen.le)

theorem hostAddrs_single {port : UInt16} {dns displayIps : Bool} {path : Option CString}
    (h : makeTarget res port dns displayIps false path count head address room = .ok made) :
    ∃ ip, hostAddrs res false address = [ip] := by
  unfold makeTarget at h
  unfold hostAddrs
  cases hliteral : inetPton address with
  | some ip => exact ⟨ip, rfl⟩
  | none =>
    rw [hliteral] at h
    cases hname : res.getaddrinfo address with
    | none =>
      rw [hname] at h
      cases h
    | some found => exact ⟨found.1, rfl⟩

/-- The address is the only target. -/
theorem pingTargets_address (hlen : address.length < NI_MAXHOST)
    (hcfg : cfg.multiple = false ∧ cfg.reverseDns = false ∧ cfg.displayIps = false)
    (h : pingTargets cfg res count dummyTargets [address] = .ok ts) :
    ∃ t, ts.tail = [t] ∧ t.displayed = some address := by
  obtain ⟨made, hmade, h⟩ := bind_eq_ok.1 h
  obtain rfl := Except.ok.inj h
  rw [hcfg.1, hcfg.2.1, hcfg.2.2] at hmade
  have hmakes := (makeTarget_makes hmade).1
  obtain ⟨ip, hip⟩ := hostAddrs_single hmade
  rw [hip] at hmakes
  generalize made.targets = targets at hmakes
  cases hmakes with
  | cons hf ht hrest =>
    cases hrest
    rcases findOrMakeTarget_ok cfg.port count hf with ⟨-, u, hu, -, haddr⟩ | ⟨rfl, rfl⟩
    · -- the dummy has no address
      obtain rfl := List.mem_singleton.1 (List.mem_of_getElem? hu)
      cases haddr
    · exact ⟨_, rfl, madeTarget_displayed hlen⟩

theorem makeTargets_warning {port : UInt16} {dns displayIps multiple : Bool} {path : Option CString}
    {addrs : List InAddr} {created : ℕ}
    (h : makeTargets res port dns displayIps multiple path count address addrs created head = .ok made) :
    ∀ warning ∈ made.warning, ∃ ipAddress, warning = multipleWarning address ipAddress := by
  induction addrs generalizing created head with
  | nil =>
    obtain rfl := Except.ok.inj h
    nofun
  | cons ip addrs ih =>
    unfold makeTargets at h
    obtain ⟨⟨i, ts⟩, -, h⟩ := bind_eq_ok.1 h
    dsimp only at h
    split at h
    · cases h
    · split_ifs at h
      · obtain rfl := Except.ok.inj h
        rintro warning hw
        exact ⟨_, (Option.some.inj hw).symm⟩
      · exact ih h

theorem makeTarget_warning {port : UInt16} {dns displayIps multiple : Bool} {path : Option CString}
    (h : makeTarget res port dns displayIps multiple path count head address room = .ok made) :
    ∀ warning ∈ made.warning, ∃ ipAddress, warning = multipleWarning address ipAddress := by
  unfold makeTarget at h
  split at h
  · obtain ⟨⟨i, ts⟩, -, h⟩ := bind_eq_ok.1 h
    dsimp only at h
    split at h
    · cases h
    · split_ifs at h
      · split at h
        · cases h
        · split_ifs at h
          obtain rfl := Except.ok.inj h
          exact fun _ hw => absurd hw (Option.not_mem_none _)
      · obtain rfl := Except.ok.inj h
        exact fun _ hw => absurd hw (Option.not_mem_none _)
  · split at h
    · cases h
    · exact makeTargets_warning h

/-- A warning is none of the results. -/
theorem isResult_pingWarnings (cfg : PingConfig) (res : Resolver) (count : ℕ) (head : List Target)
    (args : List CString) :
    ∀ line ∈ (pingWarnings cfg res count head args).map (·.toList.dropLast), isResult line = false := by
  rw [List.forall_mem_map]
  induction args generalizing head with
  | nil => exact List.forall_mem_nil _
  | cons arg args ih =>
    unfold pingWarnings
    split
    · rename_i made hmade
      refine List.forall_mem_append.2 ⟨fun warning hw => ?_, ih made.targets⟩
      obtain ⟨ipAddress, rfl⟩ := makeTarget_warning hmade warning (Option.mem_toList.1 hw)
      exact isResult_warning arg ipAddress
    · exact List.forall_mem_nil _

end

/-- **The probe reports the answers.**  For an address without white space, a run of `nfsping` with the options
    of the probe that ends leaves one result on its standard error, among its warnings and errors: the
    probe gives its targets the times of the answers of a microsecond or more, sorted, without that of the
    first ping in blaze mode.  Unless there has been an interrupt, all pings have been sent. -/
theorem smokeping_ping (probe : Probe) (s : PingSettings) (procs : NullProcs) (messages : Messages)
    (rounding : Rounding) (env : PingEnv) (res : Resolver) (fuel : ℕ) (address : CString) (r : PingResult)
    (haddress : address ≠ [] ∧ ∀ c ∈ address, isSpace c = false) (hlen : address.length < NI_MAXHOST)
    (hopts : pingOptions probe.params = .ok s) (hdispatch : s.dispatch = .ok (.ok procs))
    (h : pingMain s.config env res fuel [address] = .ok (some r)) :
    ∃ answers : List (Option ℕ), pings r.state.trace = answers.mapIdx (fun k status => (k, 0, status)) ∧
      ((∀ k, env.quitting k = false) → answers.length = probe.count) ∧
      ∀ target, probe.ping (stderrLines messages procs.name.toList rounding
          (pingWarnings s.config res s.count dummyTargets [address]) r) target =
        if target ∈ probe.addrlookup address then some (probe.reported rounding (answers.map (·.bind column)))
        else none := by
  obtain ⟨hset, hcount, hmax⟩ := pingOptions_params hopts
  have hformat : s.config.format = .fping := by
    rw [PingSettings.config, hset.format]
    rfl
  let cfg : FpingConfig :=
    { s.config with
      format_eq := hformat
      loop_eq := hset.loop
      count_pos := by rw [← hset.count] at hcount; exact Nat.pos_of_ne_zero hcount
      count_lt := by rw [← hset.count] at hmax; exact hmax }
  obtain ⟨ts, hts, hloop⟩ := pingMain_loop h
  rw [if_pos hformat] at hts
  obtain ⟨t, htail, hshown⟩ := pingTargets_address hlen ⟨hset.multiple, hset.reverseDns, hset.displayIps⟩ hts
  have hone := @pingMain_one cfg _ _ _ env hts (by rw [htail]; exact le_rfl) fuel
  rcases hone with ⟨e, he, -⟩ | hnone | ⟨r', hr', hcases⟩
  · cases he.symm.trans h
  · cases hnone.symm.trans h
  · obtain rfl : r' = r := Option.some.inj (Except.ok.inj (hr'.symm.trans h))
    rcases hcases with ⟨hzero, -⟩ | ⟨answers, honeTarget, hsummary, hall⟩
    · rw [htail] at hzero
      cases hzero
    · refine ⟨answers, honeTarget.pings, fun hq => (hall hq).trans hset.count, fun target => ?_⟩
      obtain ⟨t', htargets, -⟩ := honeTarget.targets
      have hshows := pingLoop_shows (by rw [htail]; exact List.forall_mem_singleton.2 hshown) hloop
      have hmem : t' ∈ r'.state.targets := by rw [htargets]; exact List.mem_cons_self
      have ht' : t'.shown = address := shown_of_displayed (hshows.targets t' hmem)
      have hne : answers.map (·.bind column) ≠ [] := by
        have hpings := pingLoop_pings (by rw [htargets]; exact List.cons_ne_nil _ _)
          (by rw [htail]; exact List.cons_ne_nil _ _) hloop
        rw [honeTarget.pings] at hpings
        rintro hnil
        exact hpings (by rw [List.map_eq_nil_iff.1 hnil]; rfl)
      have herrors : ∀ line ∈ r'.state.trace.zipIdx.flatMap
          (fun event => errorLines messages procs.name.toList event.2 event.1), isResult line = false := by
        intro line hline
        obtain ⟨⟨event, n⟩, hmem, hline⟩ := List.mem_flatMap.1 hline
        exact isResult_errorLines haddress.2 (dispatch_letter hdispatch)
          (hshows.trace event (List.fst_mem_of_mem_zipIdx hmem)) hline
      rw [Probe.ping, stderrLines, List.foldl_append, List.foldl_append,
        ping_of_not_isResult _ (isResult_pingWarnings _ _ _ _ _), ping_of_not_isResult _ herrors,
        htargets, hsummary]
      simp only [List.zip_cons_cons, List.zip_nil_right, List.map_cons, List.map_nil, List.foldl_cons,
        List.foldl_nil, ht']
      exact readLine_summaryLine _ haddress hne target

/-- To the nearest, halves up. -/
def halfUp : Rounding where
  hundredths us := (us + 5) / 10
  mono _ _ h := Nat.div_le_div_right (Nat.add_le_add_right h 5)
  close us _ := by omega

/-- One ping in blaze mode, of one target. -/
def blazeOnce : Probe where
  pings := 1
  blazemode := true
  addrlookup _ := ["router"]
  sprintf q := perlText (q * 1000000).floor.toNat

/-- Nothing goes wrong. -/
def noMessages : Messages where
  connect _ := []
  reason _ := []
  loss _ := []
  clock _ := (0, 0, 0)

/-- The first of two answers is discarded. -/
theorem smokeping_ping_blaze : ∃ s procs r, pingOptions blazeOnce.params = .ok s ∧
    s.dispatch = .ok (.ok procs) ∧ pingMain s.config answersAll noNames 2 ["10.0.0.1".toList] = .ok (some r) ∧
    blazeOnce.ping (stderrLines noMessages procs.name.toList halfUp
      (pingWarnings s.config noNames s.count dummyTargets ["10.0.0.1".toList]) r) "router" =
        some ["10".toList] := by
  have hrun : ∃ s r, pingOptions blazeOnce.params = .ok s ∧ s.version = 3 ∧ s.prognum = NFS_PROGRAM ∧
      pingMain s.config answersAll noNames 2 ["10.0.0.1".toList] = .ok (some r) ∧
      pings r.state.trace = [(0, 0, some 5), (1, 0, some 5)] := ⟨_, _, rfl, rfl, rfl, rfl, rfl⟩
  obtain ⟨s, r, hopts, hversion, hprognum, h, hpings⟩ := hrun
  have hdispatch : s.dispatch =
      .ok (.ok ⟨.nfsproc3Null3, "nfsproc3_null_3", "nfsv3", 3⟩) := by
    have hrow : s.prognum - 100000 = 3 := by rw [hprognum]; rfl
    rw [PingSettings.dispatch, hrow, hversion]
    rfl
  obtain ⟨answers, htrace, -, hping⟩ := smokeping_ping blazeOnce s _ noMessages halfUp answersAll noNames 2
    "10.0.0.1".toList r ⟨by decide, by simp [isSpace]⟩ (by decide) hopts hdispatch h
  have hanswers : answers = [some 5, some 5] := by
    rw [hpings] at htrace
    rcases answers with _ | ⟨first, _ | ⟨second, _ | ⟨third, answers⟩⟩⟩
    · simp at htrace
    · simp at htrace
    · simpa using htrace.symm
    · simp at htrace
  have htimes : columnTimes (blazeOnce.counted ([some 5, some 5].map (·.bind column))) = [5] := rfl
  have htext : blazeOnce.time halfUp 5 = "10".toList := by decide +kernel
  refine ⟨s, _, r, hopts, hdispatch, h, ?_⟩
  rw [hping "router", if_pos (by decide), hanswers, Probe.reported, htimes, List.mergeSort_singleton,
    List.map_singleton, htext]

end NFStash
