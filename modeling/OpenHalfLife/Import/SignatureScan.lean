import OpenHalfLife.Lib.First
import OpenHalfLife.Lib.Bytes
import OpenHalfLife.Lib.Machine
import OpenHalfLife.Media.Listing

/-! # The search for a container signature

A file is read in windows that share three bytes with the next one, under a
budget and a cancellation flag that both end the search early.
-/

namespace OpenHalfLife.Import

set_option autoImplicit false

open Media

/-! ## One window -/

inductive ContainerKind
  | wiseOverlay
  | installShieldZ
  | microsoftCabinet
  deriving DecidableEq, Repr

def installshieldZSignature : Nat := 0x8C655D13

/-- `MSCF` -/
def cabinetSignature : List UInt8 := [0x4D, 0x53, 0x43, 0x46]

def signatureBytes : Nat := 4

def scanWindowBytes : Nat := 64 * 1024

def signatureAt (window : List UInt8) (index : Nat) : Option ContainerKind :=
  let candidate := (window.drop index).take signatureBytes
  if candidate = toLe 4 installshieldZSignature then some .installShieldZ
  else if candidate = cabinetSignature then some .microsoftCabinet
  else none

def findContainerSignature (window : List UInt8) : Option (Nat × ContainerKind) :=
  (List.range (window.length + 1 - signatureBytes)).findSome? fun index =>
    (signatureAt window index).map (index, ·)

theorem findContainerSignature_first (window : List UInt8) :
    FirstHit (signatureAt window) 0 (window.length + 1 - signatureBytes)
      (findContainerSignature window) := firstHit_range _ _

theorem signatureAt_window {bytes : List UInt8} {position length index : Nat}
    (h : index + signatureBytes ≤ length) :
    signatureAt ((bytes.drop position).take length) index = signatureAt bytes (position + index) := by
  unfold signatureAt
  rw [List.drop_take, List.take_take, List.drop_drop, Nat.min_eq_left (by omega)]

theorem findContainerSignature_window {bytes : List UInt8} {position length : Nat}
    (h : position + length ≤ bytes.length) :
    FirstHit (signatureAt bytes) position (position + (length + 1 - signatureBytes))
      ((findContainerSignature ((bytes.drop position).take length)).map
        fun found => (position + found.1, found.2)) := by
  have hLength : ((bytes.drop position).take length).length = length := by
    rw [List.length_take, List.length_drop]
    omega
  have hWindow := findContainerSignature_first ((bytes.drop position).take length)
  rw [hLength] at hWindow
  have hFile : FirstHit (fun index => signatureAt bytes (position + index)) 0
      (length + 1 - signatureBytes) (findContainerSignature ((bytes.drop position).take length)) := by
    apply hWindow.congr
    intro index hIndex
    have hSignature : signatureBytes = 4 := rfl
    exact signatureAt_window (by omega)
  exact hFile.shift

/-! ## The loop -/

/-- A random-access source: what it puts at the front of a buffer of the given length. -/
structure PrefixReader (ρ : Type) where
  readAt : ρ → Nat → (length : Nat) →
    Except SanitizedError {bytes : List UInt8 // bytes.length ≤ length} × ρ

def PrefixReader.read {ρ : Type} (source : PrefixReader ρ) (reader : ρ) (position length : Nat) :
    Except SanitizedError (List UInt8) × ρ :=
  ((source.readAt reader position length).1.map fun bytes => bytes.val,
    (source.readAt reader position length).2)

structure ReadBudget where
  remaining : Nat
  deriving DecidableEq, Repr

def ReadBudget.take (budget : ReadBudget) (wanted : Nat) : Nat × ReadBudget :=
  let granted := min wanted budget.remaining
  (granted, ⟨budget.remaining - granted⟩)

/-- What the loop carries; `polls` counts the looks at the cancellation flag. -/
structure Scan (ρ : Type) where
  position : Nat
  budget : ReadBudget
  reader : ρ
  polls : Nat

/-- `u64::saturating_add` -/
def saturatingAdd (a b : Nat) : Nat := min (a + b) (2 ^ 64 - 1)

section Loop

variable {ρ : Type} (source : PrefixReader ρ) (cancelled : Nat → Bool) (stop : UInt64)

def Scan.wanted (scan : Scan ρ) : Nat := min (stop.toNat - scan.position) scanWindowBytes

/-- What is made of a window that was asked for `length` bytes. -/
def scanWindow (scan : Scan ρ) (length : Nat) (bytes : List UInt8) :
    Option (Except SanitizedError (Option (Nat × ContainerKind))) × Scan ρ :=
  if bytes.length < signatureBytes then (some (.ok none), scan)
  else match findContainerSignature bytes with
    | some (index, kind) => (some (.ok (some (saturatingAdd scan.position index, kind))), scan)
    | none =>
      if bytes.length < length then (some (.ok none), scan)
      else
        -- back by one byte less than a signature, which may lie across the border
        (none, { scan with
          position := saturatingAdd scan.position (bytes.length - (signatureBytes - 1)) })

def scanTurn (scan : Scan ρ) :
    Option (Except SanitizedError (Option (Nat × ContainerKind))) × Scan ρ :=
  if stop.toNat ≤ scan.position then (some (.ok none), scan)
  else if cancelled scan.polls then (some (.ok none), { scan with polls := scan.polls + 1 })
  else
    let (length, budget) := scan.budget.take (scan.wanted stop)
    let scan := { scan with polls := scan.polls + 1, budget }
    if length = 0 then (some (.ok none), scan)
    else
      let (read, reader) := source.read scan.reader scan.position length
      let scan := { scan with reader }
      match read with
      | .error e => (some (.error e), scan)
      | .ok bytes => scanWindow scan length bytes

theorem scanWindow_position {scan scan' : Scan ρ} {length : Nat} {bytes : List UInt8}
    (h : scanWindow scan length bytes = (none, scan')) (hPosition : scan.position < 2 ^ 64 - 1) :
    scan.position < scan'.position := by
  unfold scanWindow at h
  split at h
  · cases h
  · rename_i hFilled
    split at h
    · cases h
    · split at h
      · cases h
      · cases h
        simp only [saturatingAdd, signatureBytes] at hFilled ⊢
        omega

variable {source cancelled stop}

theorem scanTurn_position {scan scan' : Scan ρ}
    (h : scanTurn source cancelled stop scan = (none, scan')) :
    scan.position < stop.toNat ∧ scan.position < scan'.position := by
  have hStop := stop.toNat_lt
  unfold scanTurn at h
  split at h
  · cases h
  · rename_i hBefore
    refine ⟨by omega, ?_⟩
    split at h
    · cases h
    · dsimp only at h
      split at h
      · cases h
      · split at h
        · cases h
        · have hPosition := scanWindow_position h
          simp only at hPosition
          exact hPosition (by omega)

variable (source cancelled stop)

def scanFrom (scan : Scan ρ) : Except SanitizedError (Option (Nat × ContainerKind)) × Scan ρ :=
  match _h : scanTurn source cancelled stop scan with
  | (some answer, scan) => (answer, scan)
  | (none, scan') => scanFrom scan'
termination_by stop.toNat - scan.position
decreasing_by
  have hPosition := scanTurn_position _h
  omega

inductive ScanVisits (first : Scan ρ) : Scan ρ → Prop
  | first : ScanVisits first first
  | next {scan scan' : Scan ρ} : ScanVisits first scan →
      scanTurn source cancelled stop scan = (none, scan') → ScanVisits first scan'

variable {source cancelled stop}

theorem ScanVisits.behind {first scan visited : Scan ρ}
    (hTurn : scanTurn source cancelled stop first = (none, scan))
    (h : ScanVisits source cancelled stop scan visited) :
    ScanVisits source cancelled stop first visited := by
  induction h with
  | first => exact .next .first hTurn
  | next _ hNext ih => exact .next ih hNext

end Loop

/-- Scans `span` bytes from `start` for the first container signature. -/
def scanForSignature {ρ : Type} (source : PrefixReader ρ) (cancelled : Nat → Bool) (start span : UInt64)
    (budget : ReadBudget) (reader : ρ) :
    Except SanitizedError (Option (Nat × ContainerKind)) × Scan ρ :=
  scanFrom source cancelled (UInt64.ofNat (saturatingAdd start.toNat span.toNat))
    ⟨start.toNat, budget, reader, 0⟩

/-! ## The plain search -/

/-- A file whose size is a `u64`. -/
structure FileContent where
  bytes : List UInt8
  size_lt : bytes.length < 2 ^ 64

/-- From every reader state that `Good` describes, a request inside the file is filled. -/
def PrefixReader.FillsWhole {ρ : Type} (source : PrefixReader ρ) (file : FileContent)
    (Good : ρ → Prop) : Prop :=
  ∀ reader position length, Good reader → position + length ≤ file.bytes.length →
    (source.read reader position length).1 = .ok ((file.bytes.drop position).take length) ∧
      Good (source.read reader position length).2

section PlainSearch

variable {ρ : Type} {source : PrefixReader ρ} {cancelled : Nat → Bool} {stop : UInt64}
  {file : FileContent} {Good : ρ → Prop}

theorem saturatingAdd_of_lt {a b : Nat} (h : a + b < 2 ^ 64) : saturatingAdd a b = a + b := by
  unfold saturatingAdd
  omega

theorem scanTurn_of_granted {scan : Scan ρ} (hFills : source.FillsWhole file Good)
    (hStop : stop.toNat ≤ file.bytes.length) (hCancelled : cancelled scan.polls = false)
    (hGood : Good scan.reader) (hBefore : scan.position < stop.toNat)
    (hBudget : scan.wanted stop ≤ scan.budget.remaining) :
    ∃ budget reader, Good reader ∧ scanTurn source cancelled stop scan =
      scanWindow ⟨scan.position, budget, reader, scan.polls + 1⟩ (scan.wanted stop)
        ((file.bytes.drop scan.position).take (scan.wanted stop)) := by
  have hWanted : scan.wanted stop = min (stop.toNat - scan.position) (64 * 1024) := rfl
  have hTake : scan.budget.take (scan.wanted stop) =
      (scan.wanted stop, ⟨scan.budget.remaining - scan.wanted stop⟩) := by
    rw [ReadBudget.take, Nat.min_eq_left hBudget]
  obtain ⟨hRead, hReader⟩ := hFills scan.reader scan.position (scan.wanted stop) hGood (by omega)
  refine ⟨⟨scan.budget.remaining - scan.wanted stop⟩, _, hReader, ?_⟩
  rw [scanTurn, if_neg (by omega), hCancelled, if_neg Bool.false_ne_true, hTake]
  dsimp only
  rw [if_neg (by omega), hRead]

theorem scanWindow_first (scan : Scan ρ) {length : Nat}
    (hStop : stop.toNat ≤ file.bytes.length) (hBefore : scan.position < stop.toNat)
    (hLength : length = min (stop.toNat - scan.position) scanWindowBytes) :
    match scanWindow scan length ((file.bytes.drop scan.position).take length) with
    | (some answer, _) => ∃ found, answer = .ok found ∧
        FirstHit (signatureAt file.bytes) scan.position (stop.toNat + 1 - signatureBytes) found
    | (none, scan') => scan'.reader = scan.reader ∧ scan.position ≤ scan'.position ∧
        FirstHit (signatureAt file.bytes) scan.position scan'.position none := by
  have hSignature : signatureBytes = 4 := rfl
  have hWindow : scanWindowBytes = 64 * 1024 := rfl
  have hSize := stop.toNat_lt
  have hFilled : ((file.bytes.drop scan.position).take length).length = length := by
    rw [List.length_take, List.length_drop]
    omega
  have hInside : scan.position + length ≤ file.bytes.length := by omega
  have hHit := findContainerSignature_window hInside
  rw [scanWindow, hFilled]
  by_cases hShort : length < signatureBytes
  · rw [if_pos hShort]
    refine ⟨none, rfl, fun other hLow hHigh => ?_⟩
    omega
  · rw [if_neg hShort]
    cases hFind : findContainerSignature ((file.bytes.drop scan.position).take length) with
    | some found =>
      rw [hFind, Option.map_some] at hHit
      have hInside := hHit.2.1
      refine ⟨some (scan.position + found.1, found.2), ?_, hHit.widen (by omega)⟩
      rw [saturatingAdd_of_lt (by omega)]
    | none =>
      rw [hFind, Option.map_none] at hHit
      dsimp only
      rw [if_neg (Nat.lt_irrefl length)]
      dsimp only
      rw [saturatingAdd_of_lt (by omega),
        show length - (signatureBytes - 1) = length + 1 - signatureBytes by omega]
      exact ⟨rfl, by omega, hHit⟩

theorem scanTurn_first {scan : Scan ρ} (hFills : source.FillsWhole file Good)
    (hStop : stop.toNat ≤ file.bytes.length) (hCancelled : cancelled scan.polls = false)
    (hGood : Good scan.reader) (hBudget : scan.wanted stop ≤ scan.budget.remaining) :
    match scanTurn source cancelled stop scan with
    | (some answer, _) => ∃ found, answer = .ok found ∧
        FirstHit (signatureAt file.bytes) scan.position (stop.toNat + 1 - signatureBytes) found
    | (none, scan') => Good scan'.reader ∧ scan.position ≤ scan'.position ∧
        FirstHit (signatureAt file.bytes) scan.position scan'.position none := by
  rcases Nat.lt_or_ge scan.position stop.toNat with hBefore | hDone
  · obtain ⟨budget, reader, hReader, hTurn⟩ :=
      scanTurn_of_granted hFills hStop hCancelled hGood hBefore hBudget
    have hWindow := scanWindow_first ⟨scan.position, budget, reader, scan.polls + 1⟩ hStop hBefore
      (rfl : scan.wanted stop = _)
    rw [hTurn]
    generalize scanWindow ⟨scan.position, budget, reader, scan.polls + 1⟩ (scan.wanted stop)
      ((file.bytes.drop scan.position).take (scan.wanted stop)) = turn at hWindow ⊢
    obtain ⟨_ | answer, scan'⟩ := turn
    · obtain ⟨hSame, hRest⟩ := hWindow
      exact ⟨hSame ▸ hReader, hRest⟩
    · exact hWindow
  · rw [scanTurn, if_pos hDone]
    have hSignature : signatureBytes = 4 := rfl
    refine ⟨none, rfl, fun other hLow hHigh => ?_⟩
    omega

theorem scanFrom_first {scan : Scan ρ} (hFills : source.FillsWhole file Good)
    (hStop : stop.toNat ≤ file.bytes.length) (hCancelled : ∀ poll, cancelled poll = false)
    (hGood : Good scan.reader)
    (hBudget : ∀ visited, ScanVisits source cancelled stop scan visited →
      visited.wanted stop ≤ visited.budget.remaining) :
    ∃ found, (scanFrom source cancelled stop scan).1 = .ok found ∧
      FirstHit (signatureAt file.bytes) scan.position (stop.toNat + 1 - signatureBytes) found := by
  induction scan using scanFrom.induct source cancelled stop with
  | case1 scan answer scan' hTurn =>
    have hSpec := scanTurn_first hFills hStop (hCancelled _) hGood (hBudget scan .first)
    rw [hTurn] at hSpec
    rw [scanFrom, hTurn]
    exact hSpec
  | case2 scan scan' hTurn ih =>
    have hSpec := scanTurn_first hFills hStop (hCancelled _) hGood (hBudget scan .first)
    rw [hTurn] at hSpec
    obtain ⟨hGood', hLe, hNone⟩ := hSpec
    obtain ⟨found, hFound, hFirst⟩ := ih hGood' fun visited hVisits =>
      hBudget visited (.behind hTurn hVisits)
    rw [scanFrom, hTurn]
    exact ⟨found, hFound, hNone.after hFirst hLe⟩

end PlainSearch

/-- With requests filled, no cancellation and every grant in full, the scan finds the first
signature that lies whole inside the span. -/
theorem scanForSignature_finds_first {ρ : Type} (source : PrefixReader ρ) (file : FileContent)
    (Good : ρ → Prop) (cancelled : Nat → Bool) (start span : UInt64) (budget : ReadBudget) (reader : ρ)
    (hFills : source.FillsWhole file Good) (hGood : Good reader)
    (hInside : start.toNat + span.toNat ≤ file.bytes.length)
    (hCancelled : ∀ poll, cancelled poll = false)
    (hBudget : ∀ scan, ScanVisits source cancelled
        (UInt64.ofNat (saturatingAdd start.toNat span.toNat)) ⟨start.toNat, budget, reader, 0⟩ scan →
      scan.wanted (UInt64.ofNat (saturatingAdd start.toNat span.toNat)) ≤ scan.budget.remaining) :
    ∃ found, (scanForSignature source cancelled start span budget reader).1 = .ok found ∧
      FirstHit (signatureAt file.bytes) start.toNat
        (start.toNat + span.toNat + 1 - signatureBytes) found := by
  have hSize := file.size_lt
  have hStop : (UInt64.ofNat (saturatingAdd start.toNat span.toNat)).toNat =
      start.toNat + span.toNat := by
    rw [saturatingAdd_of_lt (by omega), UInt64.toNat_ofNat']
    omega
  have hEnd : (UInt64.ofNat (saturatingAdd start.toNat span.toNat)).toNat ≤ file.bytes.length := by omega
  have hFirst := scanFrom_first hFills hEnd hCancelled hGood hBudget
  rwa [hStop] at hFirst

def sliceReader : PrefixReader (List UInt8) :=
  ⟨fun bytes position length =>
    (.ok ⟨(bytes.drop position).take length, List.length_take_le _ _⟩, bytes)⟩

theorem sliceReader_fillsWhole (file : FileContent) :
    sliceReader.FillsWhole file (· = file.bytes) := by
  rintro reader position length rfl _
  exact ⟨rfl, rfl⟩

theorem scanForSignature_finds_first_cabinet :
    ∃ found, (scanForSignature sliceReader (fun _ => false) 1 6 ⟨6⟩
        [0x4D, 0x4D, 0x13, 0x4D, 0x53, 0x43, 0x46]).1 = .ok found ∧
      FirstHit (signatureAt [0x4D, 0x4D, 0x13, 0x4D, 0x53, 0x43, 0x46]) 1 4 found := by
  refine scanForSignature_finds_first sliceReader ⟨[0x4D, 0x4D, 0x13, 0x4D, 0x53, 0x43, 0x46], by decide⟩
    _ (fun _ => false) 1 6 ⟨6⟩ _ (sliceReader_fillsWhole _) rfl (by decide) (fun _ => rfl) ?_
  intro scan hVisits
  have hOnly : scan = ⟨1, ⟨6⟩, [0x4D, 0x4D, 0x13, 0x4D, 0x53, 0x43, 0x46], 0⟩ := by
    induction hVisits with
    | first => rfl
    | next _ hTurn ih =>
      rw [ih] at hTurn
      cases congrArg (fun turn => turn.1.isSome) hTurn
  rw [hOnly]
  decide

end OpenHalfLife.Import
