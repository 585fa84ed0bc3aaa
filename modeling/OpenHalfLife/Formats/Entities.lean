import Mathlib
import OpenHalfLife.Formats.Slice
import OpenHalfLife.Lib.Bytes

/-! # The entities lump

A text of blocks in braces, each a sequence of quoted keys and values, that
ends in the only NUL it has.
-/

namespace OpenHalfLife.Formats

set_option autoImplicit false

abbrev Entity := Std.ExtTreeMap String String

structure EntityLumpReport where
  relaxedStrings : Nat
  deriving DecidableEq, Repr

structure EntityLimits where
  maxEntitiesBytes : Nat
  maxEntities : Nat
  maxEntityStringBytes : Nat

/-! ## Characters and strings -/

def quoteByte : UInt8 := 0x22

def openBrace : UInt8 := 0x7B

def closeBrace : UInt8 := 0x7D

/-- `u8::is_ascii_whitespace` -/
def isAsciiWhitespace (byte : UInt8) : Bool :=
  byte == 0x20 || byte == 0x09 || byte == 0x0A || byte == 0x0C || byte == 0x0D

def latin1 (raw : List UInt8) : String := String.ofList (raw.map fun byte => Char.ofNat byte.toNat)

def decodeQuoted (raw : List UInt8) (report : EntityLumpReport) : String × EntityLumpReport :=
  match decodeUtf8 raw with
  | some text => (text, report)
  | none => (latin1 raw, ⟨report.relaxedStrings + 1⟩)

/-! ## The cursor

A cursor is the text that is left.
-/

def skipWhitespace (text : List UInt8) : List UInt8 := text.dropWhile isAsciiWhitespace

theorem skipWhitespace_length (text : List UInt8) : (skipWhitespace text).length ≤ text.length :=
  (List.dropWhile_suffix _).length_le

/-- The bytes up to the closing quote, of which `taken` are behind the cursor. -/
def readRaw (maxLen : Nat) : Nat → List UInt8 → Except FormatError (List UInt8 × List UInt8)
  | _, [] => .error .invalidText
  | taken, byte :: text =>
    if byte = quoteByte then .ok ([], text)
    else if maxLen < taken + 1 then .error .limitExceeded
    else do
      let (raw, text) ← readRaw maxLen (taken + 1) text
      .ok (byte :: raw, text)

def readQuoted (maxLen : Nat) (text : List UInt8) (report : EntityLumpReport) :
    Except FormatError (String × EntityLumpReport × List UInt8) :=
  match text with
  | [] => .error .invalidText
  | byte :: text =>
    if byte = quoteByte then do
      let (raw, text) ← readRaw maxLen 0 text
      let (string, report) := decodeQuoted raw report
      .ok (string, report, text)
    else .error .invalidText

/-! ## Quoted runs -/

structure QuotedRun (maxLen : Nat) (raw : List UInt8) : Prop where
  unquoted : quoteByte ∉ raw
  short : raw.length ≤ maxLen

def decodeText (raw : List UInt8) : String := (decodeUtf8 raw).getD (latin1 raw)

def relaxedRuns (runs : List (List UInt8)) : Nat := runs.countP fun raw => (decodeUtf8 raw).isNone

theorem decodeQuoted_eq (raw : List UInt8) (report : EntityLumpReport) :
    decodeQuoted raw report = (decodeText raw, ⟨report.relaxedStrings + relaxedRuns [raw]⟩) := by
  unfold decodeQuoted decodeText relaxedRuns
  cases h : decodeUtf8 raw <;> simp [h]

section Quoted

variable {maxLen taken : Nat} {raw text rest : List UInt8}

theorem readRaw_eq_ok : readRaw maxLen taken text = .ok (raw, rest) ↔
    text = raw ++ quoteByte :: rest ∧ quoteByte ∉ raw ∧ (raw = [] ∨ taken + raw.length ≤ maxLen) := by
  induction text generalizing taken raw with
  | nil => simp [readRaw]
  | cons byte text ih =>
    rw [readRaw]
    by_cases hQuote : byte = quoteByte
    · rw [if_pos hQuote]
      cases raw with
      | nil => simp [hQuote, eq_comm]
      | cons first raw =>
        simp only [Except.ok.injEq, Prod.mk.injEq, List.cons_append, List.cons.injEq, List.mem_cons, not_or,
          reduceCtorEq, false_and, false_iff]
        rintro ⟨⟨rfl, _⟩, ⟨hNot, _⟩, _⟩
        exact hNot hQuote.symm
    · rw [if_neg hQuote, Result.ite_error_eq_ok, Result.bind_eq_ok]
      constructor
      · rintro ⟨hRoom, ⟨tail, rest'⟩, hTail, hOk⟩
        cases hOk
        obtain ⟨rfl, hUnquoted, hShort⟩ := ih.mp hTail
        refine ⟨rfl, List.not_mem_cons_of_ne_of_not_mem (Ne.symm hQuote) hUnquoted, .inr ?_⟩
        rw [List.length_cons]
        rcases hShort with rfl | hShort
        · rw [List.length_nil]
          omega
        · omega
      · rintro ⟨hText, hUnquoted, hShort⟩
        cases raw with
        | nil =>
          rw [List.nil_append, List.cons.injEq] at hText
          exact absurd hText.1 hQuote
        | cons first raw =>
          rw [List.cons_append, List.cons.injEq] at hText
          obtain ⟨rfl, rfl⟩ := hText
          simp only [reduceCtorEq, false_or, List.length_cons] at hShort
          refine ⟨by omega, (raw, rest), ih.mpr ⟨rfl, ?_, .inr (by omega)⟩, rfl⟩
          exact fun hMem => hUnquoted (List.mem_cons_of_mem _ hMem)

theorem readQuoted_eq_ok {report report' : EntityLumpReport} {string : String} :
    readQuoted maxLen text report = .ok (string, report', rest) ↔
      ∃ raw, text = quoteByte :: raw ++ quoteByte :: rest ∧ QuotedRun maxLen raw ∧
        string = decodeText raw ∧ report' = ⟨report.relaxedStrings + relaxedRuns [raw]⟩ := by
  cases text with
  | nil => simp [readQuoted]
  | cons byte text =>
    unfold readQuoted
    by_cases hQuote : byte = quoteByte
    · simp only [if_pos hQuote, Result.bind_eq_ok, decodeQuoted_eq]
      constructor
      · rintro ⟨⟨raw, rest'⟩, hRaw, hOk⟩
        cases hOk
        obtain ⟨rfl, hUnquoted, hShort⟩ := readRaw_eq_ok.mp hRaw
        refine ⟨raw, by rw [hQuote, List.cons_append], ⟨hUnquoted, ?_⟩, rfl, rfl⟩
        rcases hShort with rfl | hShort
        · exact Nat.zero_le _
        · omega
      · rintro ⟨raw, hText, hRun, rfl, rfl⟩
        rw [List.cons_append, List.cons.injEq] at hText
        exact ⟨(raw, rest), readRaw_eq_ok.mpr ⟨hText.2, hRun.unquoted, .inr (by have h := hRun.short; omega)⟩, rfl⟩
    · simp only [if_neg hQuote, reduceCtorEq, false_iff, List.cons_append, List.cons.injEq, not_exists, not_and]
      rintro raw ⟨hFirst, _⟩
      exact absurd hFirst hQuote

theorem readQuoted_length {report report' : EntityLumpReport} {string : String}
    (h : readQuoted maxLen text report = .ok (string, report', rest)) : rest.length < text.length := by
  obtain ⟨raw, rfl, _⟩ := readQuoted_eq_ok.mp h
  simp only [List.length_append, List.length_cons]
  omega

end Quoted

/-! ## The grammar -/

def Blank (text : List UInt8) : Prop := ∀ byte ∈ text, isAsciiWhitespace byte

theorem Blank.nil : Blank [] := fun _ h => absurd h List.not_mem_nil

theorem Blank.single {byte : UInt8} (h : isAsciiWhitespace byte) : Blank [byte] :=
  fun _ hMem => List.mem_singleton.mp hMem ▸ h

abbrev RawPair := List UInt8 × List UInt8

inductive Body (maxLen : Nat) : List UInt8 → List RawPair → Prop
  | close {blank : List UInt8} : Blank blank → Body maxLen (blank ++ [closeBrace]) []
  | pair {blank gap key value body : List UInt8} {pairs : List RawPair} :
    Blank blank → QuotedRun maxLen key → Blank gap → QuotedRun maxLen value → Body maxLen body pairs →
      Body maxLen (blank ++ quoteByte :: key ++ quoteByte :: gap ++ quoteByte :: value ++ quoteByte :: body)
        ((key, value) :: pairs)

inductive Blocks (maxLen : Nat) : List UInt8 → List (List RawPair) → Prop
  | stop {blank : List UInt8} : Blank blank → Blocks maxLen blank []
  | block {blank body text : List UInt8} {pairs : List RawPair} {blocks : List (List RawPair)} :
    Blank blank → Body maxLen body pairs → Blocks maxLen text blocks →
      Blocks maxLen (blank ++ openBrace :: body ++ text) (pairs :: blocks)

def decodePair (pair : RawPair) : String × String := (decodeText pair.1, decodeText pair.2)

def runsOf (pair : RawPair) : List (List UInt8) := [pair.1, pair.2]

/-! ## Parsing -/

section Parsing

variable (maxLen : Nat)

def readPairs (text : List UInt8) (entity : Entity) (report : EntityLumpReport) :
    Except FormatError (Entity × EntityLumpReport × List UInt8) :=
  match _hSkip : skipWhitespace text with
  | [] => .error .invalidText
  | byte :: rest =>
    if byte = closeBrace then .ok (entity, report, rest)
    else if byte = quoteByte then
      match _hKey : readQuoted maxLen (byte :: rest) report with
      | .error e => .error e
      | .ok (key, report, afterKey) =>
        match _hValue : readQuoted maxLen (skipWhitespace afterKey) report with
        | .error e => .error e
        | .ok (value, report, afterValue) => readPairs afterValue (entity.insert key value) report
    else .error .invalidText
termination_by text.length
decreasing_by
  have hText := skipWhitespace_length text
  have hGap := skipWhitespace_length afterKey
  have hFirst := readQuoted_length _hKey
  have hSecond := readQuoted_length _hValue
  rw [_hSkip] at hText
  omega

variable {maxLen}

theorem Blank.split (text : List UInt8) :
    ∃ blank, Blank blank ∧ text = blank ++ skipWhitespace text :=
  ⟨text.takeWhile isAsciiWhitespace, fun _ h => List.mem_takeWhile_imp h,
    (List.takeWhile_append_dropWhile ..).symm⟩

theorem skipWhitespace_append {blank : List UInt8} (h : Blank blank) (rest : List UInt8) :
    skipWhitespace (blank ++ rest) = skipWhitespace rest :=
  List.dropWhile_append_of_pos h

theorem skipWhitespace_cons {byte : UInt8} (h : isAsciiWhitespace byte = false) (rest : List UInt8) :
    skipWhitespace (byte :: rest) = byte :: rest := List.dropWhile_cons_of_neg (by simp [h])

theorem decodePair_report (report : EntityLumpReport) (pair : RawPair) (pairs : List RawPair) :
    (⟨report.relaxedStrings + relaxedRuns [pair.1] + relaxedRuns [pair.2] +
        relaxedRuns (pairs.flatMap runsOf)⟩ : EntityLumpReport) =
      ⟨report.relaxedStrings + relaxedRuns ((pair :: pairs).flatMap runsOf)⟩ := by
  have hRuns : (pair :: pairs).flatMap runsOf = [pair.1] ++ ([pair.2] ++ pairs.flatMap runsOf) := rfl
  simp only [hRuns, relaxedRuns, List.countP_append, Nat.add_assoc]

theorem readPairs_sound {text : List UInt8} {entity : Entity} {report : EntityLumpReport}
    {result : Entity × EntityLumpReport × List UInt8}
    (h : readPairs maxLen text entity report = .ok result) :
    ∃ body pairs, text = body ++ result.2.2 ∧ Body maxLen body pairs ∧
      result.1 = entity.insertMany (pairs.map decodePair) ∧
      result.2.1 = ⟨report.relaxedStrings + relaxedRuns (pairs.flatMap runsOf)⟩ := by
  fun_induction readPairs maxLen text entity report with
  | case1 => cases h
  | case2 text entity report rest hSkip =>
    cases h
    obtain ⟨blank, hBlank, hText⟩ := Blank.split text
    refine ⟨blank ++ [closeBrace], [], ?_, .close hBlank, rfl, rfl⟩
    rw [hText, hSkip, List.append_assoc, List.singleton_append]
  | case3 => cases h
  | case4 => cases h
  | case5 text entity report rest key report' afterKey value report'' afterValue hValue hSkip _ hKey ih =>
    obtain ⟨body, pairs, hBody, hGrammar, hEntity, hReport⟩ := ih h
    obtain ⟨blank, hBlank, hText⟩ := Blank.split text
    obtain ⟨gap, hGap, hAfter⟩ := Blank.split afterKey
    obtain ⟨rawKey, hRawKey, hKeyRun, rfl, rfl⟩ := readQuoted_eq_ok.mp hKey
    obtain ⟨rawValue, hRawValue, hValueRun, rfl, rfl⟩ := readQuoted_eq_ok.mp hValue
    refine ⟨_, (rawKey, rawValue) :: pairs, ?_, .pair hBlank hKeyRun hGap hValueRun hGrammar, ?_, ?_⟩
    · rw [hText, hSkip, hRawKey, hAfter, hRawValue, hBody]
      simp only [List.append_assoc, List.cons_append]
    · rw [hEntity, List.map_cons]
      exact Std.ExtTreeMap.insertMany_cons.symm
    · rw [hReport, ← decodePair_report]
  | case6 => cases h

theorem Body.length_pos {body : List UInt8} {pairs : List RawPair} (h : Body maxLen body pairs) :
    0 < body.length := by
  cases h with
  | close => simp
  | pair => simp only [List.length_append, List.length_cons]; omega

theorem readPairs_length {text : List UInt8} {entity : Entity} {report : EntityLumpReport}
    {result : Entity × EntityLumpReport × List UInt8}
    (h : readPairs maxLen text entity report = .ok result) : result.2.2.length < text.length := by
  obtain ⟨body, pairs, hText, hBody, _⟩ := readPairs_sound h
  have hPos := hBody.length_pos
  rw [hText, List.length_append]
  omega

theorem readPairs_close {text rest : List UInt8} (entity : Entity) (report : EntityLumpReport)
    (hSkip : skipWhitespace text = closeBrace :: rest) :
    readPairs maxLen text entity report = .ok (entity, report, rest) := by
  rw [readPairs]
  split
  · rename_i hNone
    cases hNone.symm.trans hSkip
  · rename_i hSome
    cases hSome.symm.trans hSkip
    rw [if_pos rfl]

theorem readPairs_pair {text rest afterKey afterValue : List UInt8} {key value : String} (entity : Entity)
    {report report' report'' : EntityLumpReport} (hSkip : skipWhitespace text = quoteByte :: rest)
    (hKey : readQuoted maxLen (quoteByte :: rest) report = .ok (key, report', afterKey))
    (hValue : readQuoted maxLen (skipWhitespace afterKey) report' = .ok (value, report'', afterValue)) :
    readPairs maxLen text entity report = readPairs maxLen afterValue (entity.insert key value) report'' := by
  rw [readPairs]
  split
  · rename_i hNone
    cases hNone.symm.trans hSkip
  · rename_i hSome
    cases hSome.symm.trans hSkip
    rw [if_neg (by decide), if_pos rfl]
    split
    · rename_i hError
      cases hError.symm.trans hKey
    · rename_i hOk
      cases hOk.symm.trans hKey
      split
      · rename_i hError
        cases hError.symm.trans hValue
      · rename_i hOk
        cases hOk.symm.trans hValue
        rfl

theorem readPairs_complete {body : List UInt8} {pairs : List RawPair} (h : Body maxLen body pairs)
    (rest : List UInt8) (entity : Entity) (report : EntityLumpReport) :
    readPairs maxLen (body ++ rest) entity report =
      .ok (entity.insertMany (pairs.map decodePair),
        ⟨report.relaxedStrings + relaxedRuns (pairs.flatMap runsOf)⟩, rest) := by
  induction h generalizing entity report with
  | @close blank hBlank =>
    apply readPairs_close
    rw [List.append_assoc, skipWhitespace_append hBlank]
    exact skipWhitespace_cons rfl rest
  | @pair blank gap key value body pairs hBlank hKey hGap hValue hBody ih =>
    have hSkip : skipWhitespace (blank ++ quoteByte :: key ++ quoteByte :: gap ++ quoteByte :: value ++
        quoteByte :: body ++ rest) =
        quoteByte :: (key ++ quoteByte :: (gap ++ quoteByte :: (value ++ quoteByte :: (body ++ rest)))) := by
      simp only [List.append_assoc, List.cons_append]
      rw [skipWhitespace_append hBlank]
      exact skipWhitespace_cons rfl _
    have hGapSkip : skipWhitespace (gap ++ quoteByte :: (value ++ quoteByte :: (body ++ rest))) =
        quoteByte :: value ++ quoteByte :: (body ++ rest) := by
      rw [skipWhitespace_append hGap]
      exact skipWhitespace_cons rfl _
    rw [readPairs_pair entity hSkip (readQuoted_eq_ok.mpr ⟨key, rfl, hKey, rfl, rfl⟩)
      (readQuoted_eq_ok.mpr ⟨value, hGapSkip, hValue, rfl, rfl⟩), ih, List.map_cons,
      ← decodePair_report]
    rw [show decodePair (key, value) = (decodeText key, decodeText value) from rfl,
      Std.ExtTreeMap.insertMany_cons]

variable (maxLen) (maxEntities : Nat)

def readBlocks (text : List UInt8) (entities : List Entity) (report : EntityLumpReport) :
    Except FormatError (List Entity × EntityLumpReport) :=
  match _hSkip : skipWhitespace text with
  | [] => .ok (entities, report)
  | byte :: rest =>
    if byte ≠ openBrace then .error .invalidText
    else if maxEntities ≤ entities.length then .error .limitExceeded
    else match _hPairs : readPairs maxLen rest ∅ report with
      | .error e => .error e
      | .ok (entity, report, afterBlock) => readBlocks afterBlock (entities ++ [entity]) report
termination_by text.length
decreasing_by
  have hText := skipWhitespace_length text
  have hBlock : afterBlock.length < rest.length := readPairs_length _hPairs
  rw [_hSkip, List.length_cons] at hText
  omega

end Parsing

def parseWithReport (lump : List UInt8) (limits : EntityLimits) :
    Except FormatError (List Entity × EntityLumpReport) :=
  if lump = [] then .ok ([], ⟨0⟩)
  else if limits.maxEntitiesBytes < lump.length then .error .limitExceeded
  else if lump.getLast? ≠ some 0 then .error .invalidText
  else
    let text := lump.dropLast
    if 0 ∈ text then .error .invalidText
    else readBlocks limits.maxEntityStringBytes limits.maxEntities text [] ⟨0⟩

/-! ## Acceptance -/

section Acceptance

variable {maxLen maxEntities : Nat}

def entityOf (pairs : List RawPair) : Entity := (∅ : Entity).insertMany (pairs.map decodePair)

def lumpRuns (blocks : List (List RawPair)) : List (List UInt8) := blocks.flatMap (·.flatMap runsOf)

theorem lumpRuns_report (report : EntityLumpReport) (pairs : List RawPair) (blocks : List (List RawPair)) :
    (⟨report.relaxedStrings + relaxedRuns (pairs.flatMap runsOf) + relaxedRuns (lumpRuns blocks)⟩ :
        EntityLumpReport) = ⟨report.relaxedStrings + relaxedRuns (lumpRuns (pairs :: blocks))⟩ := by
  simp only [lumpRuns, List.flatMap_cons, relaxedRuns, List.countP_append, Nat.add_assoc]

theorem readBlocks_stop {text : List UInt8} (entities : List Entity) (report : EntityLumpReport)
    (hSkip : skipWhitespace text = []) :
    readBlocks maxLen maxEntities text entities report = .ok (entities, report) := by
  rw [readBlocks]
  split
  · rfl
  · rename_i hSome
    cases hSome.symm.trans hSkip

theorem readBlocks_block {text rest afterBlock : List UInt8} {entities : List Entity} {entity : Entity}
    {report report' : EntityLumpReport} (hSkip : skipWhitespace text = openBrace :: rest)
    (hRoom : entities.length < maxEntities)
    (hPairs : readPairs maxLen rest ∅ report = .ok (entity, report', afterBlock)) :
    readBlocks maxLen maxEntities text entities report =
      readBlocks maxLen maxEntities afterBlock (entities ++ [entity]) report' := by
  rw [readBlocks]
  split
  · rename_i hNone
    cases hNone.symm.trans hSkip
  · rename_i hSome
    cases hSome.symm.trans hSkip
    rw [if_neg (not_not.mpr rfl), if_neg (by omega)]
    split
    · rename_i hError
      cases hError.symm.trans hPairs
    · rename_i hOk
      cases hOk.symm.trans hPairs
      rfl

theorem readBlocks_sound {text : List UInt8} {entities : List Entity} {report : EntityLumpReport}
    {result : List Entity × EntityLumpReport}
    (h : readBlocks maxLen maxEntities text entities report = .ok result)
    (hRoom : entities.length ≤ maxEntities) :
    ∃ blocks, Blocks maxLen text blocks ∧ entities.length + blocks.length ≤ maxEntities ∧
      result = (entities ++ blocks.map entityOf,
        ⟨report.relaxedStrings + relaxedRuns (lumpRuns blocks)⟩) := by
  fun_induction readBlocks maxLen maxEntities text entities report with
  | case1 text entities report hSkip =>
    cases h
    obtain ⟨blank, hBlank, hText⟩ := Blank.split text
    rw [hSkip, List.append_nil] at hText
    exact ⟨[], .stop (hText ▸ hBlank), hRoom, by rw [List.map_nil, List.append_nil]; rfl⟩
  | case2 => cases h
  | case3 => cases h
  | case4 => cases h
  | case5 text entities report byte rest hSkip hOpen hFull entity report' afterBlock hPairs ih =>
    obtain ⟨blank, hBlank, hText⟩ := Blank.split text
    obtain ⟨body, pairs, hRest, hBody, hEntity, hReport⟩ := readPairs_sound hPairs
    dsimp only at hRest hEntity hReport
    obtain ⟨blocks, hBlocks, hFits, hResult⟩ := ih h (by rw [List.length_append, List.length_singleton]; omega)
    rw [List.length_append, List.length_singleton] at hFits
    refine ⟨pairs :: blocks, ?_, by rw [List.length_cons]; omega, ?_⟩
    · rw [hText, hSkip, hRest, not_not.mp hOpen, ← List.cons_append, ← List.append_assoc]
      exact .block hBlank hBody hBlocks
    · rw [hResult, hReport, hEntity, lumpRuns_report, List.append_assoc, List.map_cons]
      rfl

theorem readBlocks_complete {text : List UInt8} {blocks : List (List RawPair)} (h : Blocks maxLen text blocks)
    (entities : List Entity) (report : EntityLumpReport)
    (hRoom : entities.length + blocks.length ≤ maxEntities) :
    readBlocks maxLen maxEntities text entities report =
      .ok (entities ++ blocks.map entityOf, ⟨report.relaxedStrings + relaxedRuns (lumpRuns blocks)⟩) := by
  induction h generalizing entities report with
  | @stop blank hBlank =>
    have hSkip : skipWhitespace blank = [] := by
      have hAll := skipWhitespace_append hBlank []
      rwa [List.append_nil] at hAll
    rw [readBlocks_stop entities report hSkip, List.map_nil, List.append_nil]
    rfl
  | @block blank body text pairs blocks hBlank hBody _ ih =>
    have hSkip : skipWhitespace (blank ++ openBrace :: body ++ text) = openBrace :: (body ++ text) := by
      rw [List.append_assoc, skipWhitespace_append hBlank]
      exact skipWhitespace_cons rfl _
    rw [List.length_cons] at hRoom
    rw [readBlocks_block hSkip (by omega) (readPairs_complete hBody text ∅ report),
      ih _ _ (by rw [List.length_append, List.length_singleton]; omega), lumpRuns_report, List.append_assoc,
      List.map_cons]
    rfl

/-- The lump is empty, or it is the blocks and the one NUL that ends it, within the limits. -/
def LumpOf (limits : EntityLimits) (lump : List UInt8) (blocks : List (List RawPair)) : Prop :=
  lump = [] ∧ blocks = [] ∨
    ∃ text, lump = text ++ [0] ∧ 0 ∉ text ∧ lump.length ≤ limits.maxEntitiesBytes ∧
      blocks.length ≤ limits.maxEntities ∧ Blocks limits.maxEntityStringBytes text blocks

theorem parseWithReport_eq_ok {lump : List UInt8} {limits : EntityLimits}
    {result : List Entity × EntityLumpReport} :
    parseWithReport lump limits = .ok result ↔
      ∃ blocks, LumpOf limits lump blocks ∧
        result = (blocks.map entityOf, ⟨relaxedRuns (lumpRuns blocks)⟩) := by
  unfold parseWithReport
  rcases List.eq_nil_or_concat' lump with rfl | ⟨text, last, rfl⟩
  · rw [if_pos rfl]
    constructor
    · intro h
      cases h
      exact ⟨[], .inl ⟨rfl, rfl⟩, rfl⟩
    · rintro ⟨blocks, ⟨_, rfl⟩ | ⟨text, hText, _⟩, rfl⟩
      · rfl
      · cases List.append_ne_nil_of_right_ne_nil text (List.cons_ne_nil _ _) hText.symm
  · rw [if_neg (List.append_ne_nil_of_right_ne_nil text (List.cons_ne_nil _ _)), Result.ite_error_eq_ok,
      Result.ite_error_eq_ok, List.dropLast_concat, List.getLast?_concat]
    dsimp only
    rw [Result.ite_error_eq_ok]
    constructor
    · rintro ⟨hSize, hLast, hText, hBlocks⟩
      cases Option.some.inj (not_not.mp hLast)
      obtain ⟨blocks, hGrammar, hFits, rfl⟩ := readBlocks_sound hBlocks (Nat.zero_le _)
      rw [List.length_nil, Nat.zero_add] at hFits
      refine ⟨blocks, .inr ⟨text, rfl, hText, by omega, hFits, hGrammar⟩, ?_⟩
      simp only [List.nil_append, Nat.zero_add]
    · rintro ⟨blocks, ⟨hEmpty, _⟩ | ⟨text', hText, hNul, hSize, hFits, hGrammar⟩, rfl⟩
      · cases List.append_ne_nil_of_right_ne_nil text (List.cons_ne_nil _ _) hEmpty
      · obtain ⟨rfl, hLast⟩ := List.append_inj' hText rfl
        cases hLast
        refine ⟨by omega, not_not.mpr rfl, hNul, ?_⟩
        rw [readBlocks_complete hGrammar [] ⟨0⟩ (by rw [List.length_nil]; omega)]
        simp only [List.nil_append, Nat.zero_add]

/-- The value of the last pair whose key decodes to `key`. -/
def lastValue (pairs : List RawPair) (key : String) : Option String :=
  pairs.findSomeRev? fun pair => if decodeText pair.1 = key then some (decodeText pair.2) else none

theorem entityOf_getElem? (pairs : List RawPair) (key : String) :
    (entityOf pairs)[key]? = lastValue pairs key := by
  rw [entityOf, Std.ExtTreeMap.getElem?_insertMany_list, Std.ExtTreeMap.getElem?_empty, Option.or_none,
    lastValue, List.findSomeRev?_eq_findSome?_reverse, List.findSomeRev?_eq_findSome?_reverse,
    ← List.map_reverse, List.findSome?_map]
  congr 1
  funext pair
  by_cases hKey : decodeText pair.1 = key <;> simp [decodePair, hKey]

end Acceptance

/-! ## Printing -/

def printPair (pair : String × String) : List UInt8 :=
  [quoteByte] ++ utf8Bytes pair.1 ++ [quoteByte, 0x20, quoteByte] ++ utf8Bytes pair.2 ++ [quoteByte, 0x0A]

def printEntity (entity : Entity) : List UInt8 :=
  [openBrace, 0x0A] ++ entity.toList.flatMap printPair ++ [closeBrace, 0x0A]

def printLump (entities : List Entity) : List UInt8 := entities.flatMap printEntity ++ [0]

structure Printable (limits : EntityLimits) (text : String) : Prop where
  unquoted : Char.ofNat 0x22 ∉ text.toList
  noNul : Char.ofNat 0 ∉ text.toList
  short : (utf8Bytes text).length ≤ limits.maxEntityStringBytes

structure PrintableLump (limits : EntityLimits) (entities : List Entity) : Prop where
  strings : ∀ entity ∈ entities, ∀ key value, entity[key]? = some value →
    Printable limits key ∧ Printable limits value
  count : entities.length ≤ limits.maxEntities
  size : (printLump entities).length ≤ limits.maxEntitiesBytes

section Printing

variable {limits : EntityLimits}

def rawPair (pair : String × String) : RawPair := (utf8Bytes pair.1, utf8Bytes pair.2)

theorem Printable.quotedRun {text : String} (h : Printable limits text) :
    QuotedRun limits.maxEntityStringBytes (utf8Bytes text) := by
  refine ⟨fun hQuote => h.unquoted ?_, h.short⟩
  obtain ⟨c, hMem, hValue⟩ := mem_utf8Bytes hQuote (by decide)
  rwa [show c = Char.ofNat 0x22 from Char.toNat_inj.mp hValue] at hMem

theorem Printable.zero_not_mem {text : String} (h : Printable limits text) : 0 ∉ utf8Bytes text := by
  intro hZero
  obtain ⟨c, hMem, hValue⟩ := mem_utf8Bytes hZero (by decide)
  rw [show c = Char.ofNat 0 from Char.toNat_inj.mp hValue] at hMem
  exact h.noNul hMem

theorem blank_newline : Blank [0x0A] := .single rfl

theorem blank_space : Blank [0x20] := .single rfl

theorem body_of_print {blank : List UInt8} {pairs : List (String × String)} (hBlank : Blank blank)
    (h : ∀ pair ∈ pairs, Printable limits pair.1 ∧ Printable limits pair.2) :
    Body limits.maxEntityStringBytes (blank ++ pairs.flatMap printPair ++ [closeBrace])
      (pairs.map rawPair) := by
  induction pairs generalizing blank with
  | nil =>
    rw [List.flatMap_nil, List.append_nil]
    exact .close hBlank
  | cons pair pairs ih =>
    obtain ⟨hKey, hValue⟩ := h pair List.mem_cons_self
    have hRest := ih blank_newline fun other hOther => h other (List.mem_cons_of_mem _ hOther)
    have hPair := Body.pair hBlank hKey.quotedRun blank_space hValue.quotedRun hRest
    have hText : blank ++ (pair :: pairs).flatMap printPair ++ [closeBrace] =
        blank ++ quoteByte :: utf8Bytes pair.1 ++ quoteByte :: [0x20] ++ quoteByte :: utf8Bytes pair.2 ++
          quoteByte :: ([0x0A] ++ pairs.flatMap printPair ++ [closeBrace]) := by
      simp only [List.flatMap_cons, printPair, List.append_assoc, List.cons_append, List.nil_append]
    rw [hText]
    exact hPair

theorem blocks_of_print {blank : List UInt8} {entities : List Entity} (hBlank : Blank blank)
    (h : ∀ entity ∈ entities, ∀ pair ∈ entity.toList, Printable limits pair.1 ∧ Printable limits pair.2) :
    Blocks limits.maxEntityStringBytes (blank ++ entities.flatMap printEntity)
      (entities.map fun entity => entity.toList.map rawPair) := by
  induction entities generalizing blank with
  | nil =>
    rw [List.flatMap_nil, List.append_nil]
    exact .stop hBlank
  | cons entity entities ih =>
    have hRest := ih blank_newline fun other hOther => h other (List.mem_cons_of_mem _ hOther)
    have hBody := body_of_print blank_newline (h entity List.mem_cons_self)
    have hText : blank ++ (entity :: entities).flatMap printEntity =
        blank ++ openBrace :: ([0x0A] ++ entity.toList.flatMap printPair ++ [closeBrace]) ++
          ([0x0A] ++ entities.flatMap printEntity) := by
      simp only [List.flatMap_cons, printEntity, List.append_assoc, List.cons_append, List.nil_append]
    rw [hText]
    exact .block hBlank hBody hRest

theorem PrintableLump.pairs {entities : List Entity} (h : PrintableLump limits entities) :
    ∀ entity ∈ entities, ∀ pair ∈ entity.toList, Printable limits pair.1 ∧ Printable limits pair.2 := by
  intro entity hEntity pair hPair
  exact h.strings entity hEntity pair.1 pair.2
    (Std.ExtTreeMap.mem_toList_iff_getElem?_eq_some.mp hPair)

theorem zero_not_mem_print {entities : List Entity} (h : PrintableLump limits entities) :
    0 ∉ entities.flatMap printEntity := by
  intro hZero
  obtain ⟨entity, hEntity, hZero⟩ := List.mem_flatMap.mp hZero
  have hPairs : 0 ∉ entity.toList.flatMap printPair := by
    intro hZero
    obtain ⟨pair, hPair, hZero⟩ := List.mem_flatMap.mp hZero
    obtain ⟨hKey, hValue⟩ := h.pairs entity hEntity pair hPair
    simp [printPair, hKey.zero_not_mem, hValue.zero_not_mem, quoteByte] at hZero
  simp only [printEntity, List.mem_append] at hZero
  rcases hZero with (hZero | hZero) | hZero
  · revert hZero
    decide
  · exact hPairs hZero
  · revert hZero
    decide

theorem decodePair_rawPair (pair : String × String) : decodePair (rawPair pair) = pair := by
  simp only [decodePair, rawPair, decodeText, decodeUtf8_utf8Bytes, Option.getD_some]

theorem entityOf_rawPairs (entity : Entity) : entityOf (entity.toList.map rawPair) = entity := by
  have hPairs : (entity.toList.map rawPair).map decodePair = entity.toList := by
    rw [List.map_map]
    exact List.map_id'' decodePair_rawPair _
  rw [entityOf, hPairs]
  apply Std.ExtTreeMap.ext_getElem?
  intro key
  cases hValue : entity[key]? with
  | some value =>
    exact Std.ExtTreeMap.getElem?_insertMany_list_of_mem Std.ReflCmp.compare_self
      Std.ExtTreeMap.distinct_keys_toList (Std.ExtTreeMap.mem_toList_iff_getElem?_eq_some.mpr hValue)
  | none =>
    rw [Std.ExtTreeMap.getElem?_insertMany_list_of_contains_eq_false]
    · exact Std.ExtTreeMap.getElem?_empty
    · rw [List.contains_eq_mem, decide_eq_false_iff_not]
      intro hMem
      obtain ⟨pair, hPair, rfl⟩ := List.mem_map.mp hMem
      cases hValue.symm.trans (Std.ExtTreeMap.mem_toList_iff_getElem?_eq_some.mp hPair)

theorem relaxedRuns_printed (entities : List Entity) :
    relaxedRuns (lumpRuns (entities.map fun entity => entity.toList.map rawPair)) = 0 := by
  rw [relaxedRuns, List.countP_eq_zero]
  intro raw hRaw
  simp only [lumpRuns, List.mem_flatMap, List.mem_map] at hRaw
  obtain ⟨_, ⟨entity, _, rfl⟩, _, hPair, hRun⟩ := hRaw
  obtain ⟨pair, _, rfl⟩ := List.mem_map.mp hPair
  simp only [runsOf, rawPair, List.mem_cons, List.not_mem_nil, or_false] at hRun
  rcases hRun with rfl | rfl <;> simp [decodeUtf8_utf8Bytes]

theorem parse_printLump {entities : List Entity} (h : PrintableLump limits entities) :
    parseWithReport (printLump entities) limits = .ok (entities, ⟨0⟩) := by
  have hGrammar := blocks_of_print Blank.nil h.pairs
  rw [parseWithReport_eq_ok]
  refine ⟨_, .inr ⟨_, rfl, zero_not_mem_print h, h.size, ?_, hGrammar⟩, ?_⟩
  · rw [List.length_map]
    exact h.count
  · rw [relaxedRuns_printed, List.map_map]
    have hEach : entities.map (entityOf ∘ fun entity => entity.toList.map rawPair) = entities :=
      List.map_id'' entityOf_rawPairs _
    rw [hEach]

end Printing

/-- The parser accepts the grammar and gives every key the value of its last pair, counting the
runs that are not UTF-8; what is printed is read back. -/
theorem parseWithReport_exact (limits : EntityLimits) :
    (∀ lump entities report, parseWithReport lump limits = .ok (entities, report) ↔
      ∃ blocks, LumpOf limits lump blocks ∧ report.relaxedStrings = relaxedRuns (lumpRuns blocks) ∧
        List.Forall₂ (fun (entity : Entity) pairs => ∀ key, entity[key]? = lastValue pairs key)
          entities blocks) ∧
    ∀ entities, PrintableLump limits entities →
      parseWithReport (printLump entities) limits = .ok (entities, ⟨0⟩) := by
  refine ⟨fun lump entities report => ?_, fun entities h => parse_printLump h⟩
  rw [parseWithReport_eq_ok]
  have hEntities (blocks : List (List RawPair)) : entities = blocks.map entityOf ↔
      List.Forall₂ (fun (entity : Entity) pairs => ∀ key, entity[key]? = lastValue pairs key)
        entities blocks := by
    rw [← List.forall₂_eq_eq_eq, List.forall₂_map_right_iff]
    have hEq (entity : Entity) (pairs : List RawPair) :
        entity = entityOf pairs ↔ ∀ key, entity[key]? = lastValue pairs key := by
      simp only [← entityOf_getElem?]
      exact ⟨fun h key => by rw [h], fun h => Std.ExtTreeMap.ext_getElem? fun key => h key⟩
    simp only [hEq]
  simp only [Prod.mk.injEq, hEntities]
  constructor
  · rintro ⟨blocks, hLump, hEach, rfl⟩
    exact ⟨blocks, hLump, rfl, hEach⟩
  · rintro ⟨blocks, hLump, hReport, hEach⟩
    exact ⟨blocks, hLump, hEach, by rw [← hReport]⟩

end OpenHalfLife.Formats
