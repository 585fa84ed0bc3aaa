import OpenHalfLife.Cab.Stream
import OpenHalfLife.Isz.Codebook

/-! # The two decoders of canonical codes

The LZX decoder builds its table when the lengths leave room for all codes, the
exploder builds its codebooks without a check. Both give the symbol of the code
that begins the stream, and both fail where no code does.
-/

namespace OpenHalfLife.Peers

open Machine Canonical

set_option autoImplicit false

theorem canonical_codes_decoded :
    (∀ data : List UInt8, data.length < 2 ^ 63 → (Cab.BitReader.new data).Ready) ∧
    (∀ input : List UInt8, (Isz.BitReader.mk input 0 0 0).Ready) ∧
    (∀ lengths : List Nat, (∀ length ∈ lengths, length ≤ Cab.maxCodeBits) → lengths.length < 2 ^ 16 →
      ((∃ table, (Cab.HuffmanTable.new lengths).exec () = (.ok table, ())) ↔ kraft lengths ≤ 1) ∧
      ∀ table, (Cab.HuffmanTable.new lengths).exec () = (.ok table, ()) →
        Decodes lengths (codeBits lengths) Cab.BitReader.Ready Cab.BitReader.stream
          (· = .error .decompressionFailed) (Cab.BitReader.decoded table)) ∧
    ∀ runs : List (Nat × Nat), (∀ length ∈ Isz.runLengths runs, length ≤ Isz.maxBits) →
      (Isz.runLengths runs).length < 2 ^ 16 → kraft (Isz.runLengths runs) ≤ 1 →
      Decodes (Isz.runLengths runs) (fun symbol => (codeBits (Isz.runLengths runs) symbol).map not)
        Isz.BitReader.Ready Isz.BitReader.stream (fun _ => True) (Isz.BitReader.decode (Isz.construct runs)).run := by
  refine ⟨fun _ h => Cab.BitReader.new_ready h, fun input => Isz.BitReader.new_ready input, ?_, ?_⟩
  · intro lengths hShort hLengths
    have hOk := @Cab.HuffmanTable.new_ok_iff Unit () lengths hLengths hShort
    refine ⟨hOk, ?_⟩
    intro table hTable
    have hFits : Fits lengths := fits_of_kraft (hOk.mp ⟨table, hTable⟩)
    exact Cab.BitReader.decodes hLengths hShort hFits ((Cab.HuffmanTable.new_ensures hLengths).exec.of_ok hTable).2.2.2
  · intro runs hShort _ hKraft
    exact Isz.BitReader.decodes hShort (fits_of_kraft hKraft) (Isz.construct_ofLengths hShort)

/-- Three codes of one and two bits. -/
theorem canonical_codes_three :
    ((∃ table, (Cab.HuffmanTable.new [1, 2, 2]).exec () = (.ok table, ())) ↔ kraft [1, 2, 2] ≤ 1) ∧
    Decodes [1, 2, 2] (fun symbol => (codeBits [1, 2, 2] symbol).map not) Isz.BitReader.Ready Isz.BitReader.stream
      (fun _ => True) (Isz.BitReader.decode (Isz.construct [(1, 1), (2, 2)])).run := by
  have hLengths : Isz.runLengths [(1, 1), (2, 2)] = [1, 2, 2] := by decide
  have hKraft : kraft [1, 2, 2] ≤ 1 := by
    rw [kraft, show symbols [1, 2, 2] = {0, 1, 2} by decide]
    norm_num [len]
  obtain ⟨-, -, hTables, hBooks⟩ := canonical_codes_decoded
  refine ⟨(hTables [1, 2, 2] (by decide) (by decide)).1, ?_⟩
  have hBook := hBooks [(1, 1), (2, 2)]
  rw [hLengths] at hBook
  exact hBook (by decide) (by decide) hKraft

end OpenHalfLife.Peers
