import Nmos6502.Machine
import Nmos6502.Proofs.Listing

/-!
# Listings tile memory

The entries of a listing lie one behind the other, and their bytes are those of memory from
the start on: none is left out and none is told twice, save where the listing comes round
the address space again.  So the bytes can be loaded into *any* memory, at the same start,
and be listed again.  A cell that gets several bytes gets the same one each time, which is
why the order of the loading does not matter here.

A listing may be of any length.  It need *not* end within the address space, and an entry
may run around the end of it.
-/

namespace Nmos6502

/-! ## Bytes in a row -/

theorem Word.add_one_add_ofNat (address : Word) (k : Nat) :
    address + 1 + UInt16.ofNat k = address + UInt16.ofNat (k + 1) := by
  rw [UInt16.ofNat_add, UInt16.add_comm (UInt16.ofNat k), ← UInt16.add_assoc]
  rfl

namespace Bus

variable {M : Type} [Bus M]

theorem readBytes_add (m : M) (address : Word) (i j : Nat) :
    readBytes m address (i + j) =
      readBytes m address i ++ readBytes m (address + UInt16.ofNat i) j := by
  induction i generalizing address with
  | zero => simp [readBytes]
  | succ i ih =>
      rw [Nat.add_right_comm, readBytes, readBytes, ih, List.cons_append, Word.add_one_add_ofNat]

/-- The bytes in a row are those at the start, the start plus one and so on, modulo the size
of the address space. -/
theorem readBytes_eq_map_range (m : M) (address : Word) (count : Nat) :
    readBytes m address count =
      (List.range count).map fun k => read m (UInt16.ofNat (address.toNat + k)) := by
  induction count with
  | zero => rfl
  | succ count ih =>
      have hlast : address + UInt16.ofNat count = UInt16.ofNat (address.toNat + count) := by
        rw [UInt16.ofNat_add, UInt16.ofNat_toNat]
      rw [readBytes_add, ih, List.range_succ, List.map_append, hlast]
      rfl

theorem readBytes_congr {N : Type} [Bus N] {m : M} {n : N} {address : Word} {count : Nat}
    (hread : ∀ k < count, read n (address + UInt16.ofNat k) = read m (address + UInt16.ofNat k)) :
    readBytes n address count = readBytes m address count := by
  induction count with
  | zero => rfl
  | succ count ih =>
      have hlast := hread count (Nat.lt_succ_self count)
      rw [readBytes_add, readBytes_add, ih fun k hk => hread k (Nat.lt_succ_of_lt hk)]
      simp [readBytes, hlast]

/-- Bytes that were read elsewhere are found in every cell that they are loaded to, and in
every cell that held the right byte before. -/
theorem read_load_readBytes (m : M) (n : Ram) {start address : Word} {count : Nat}
    (hcell : read n address = read m address ∨
      ∃ k < count, address = start + UInt16.ofNat k) :
    read (load n start (readBytes m start count)) address = read m address := by
  induction count generalizing n start with
  | zero =>
      rcases hcell with hsame | ⟨k, hk, -⟩
      · exact hsame
      · exact absurd hk (Nat.not_lt_zero k)
  | succ count ih =>
      rw [readBytes, load_cons]
      apply ih
      -- The first byte makes its own cell right; the others are right or still to come.
      by_cases haddress : address = start
      · left
        rw [haddress, Ram.read_write_self]
      · rcases hcell with hsame | ⟨k, hk, hk'⟩
        · left
          rw [Ram.read_write, if_neg haddress, hsame]
        · cases k with
          | zero => simp [hk'] at haddress
          | succ k => exact .inr ⟨k, Nat.lt_of_succ_lt_succ hk, by rw [hk', Word.add_one_add_ofNat]⟩

/-- Loading what was read from a place brings it there, however often it runs around the
address space. -/
theorem readBytes_load_readBytes (m : M) (n : Ram) (start : Word) (count : Nat) :
    readBytes (load n start (readBytes m start count)) start count =
      readBytes m start count :=
  readBytes_congr fun k hk => read_load_readBytes m n (.inr ⟨k, hk, rfl⟩)

end Bus

namespace Instruction

section Tiling

variable {M : Type} [Bus M]

/-! ## Entries and their bytes -/

/-- The number of bytes that instructions take up together. -/
def extent (code : List Instruction) : Nat := (code.map size).sum

@[simp] theorem extent_nil : extent [] = 0 := rfl

@[simp] theorem extent_cons (i : Instruction) (code : List Instruction) :
    extent (i :: code) = i.size + extent code := List.sum_cons

/-- A decoded instruction is in memory where it was decoded. -/
theorem isIn_decode (m : M) (address : Word) : (decode m address).IsIn m := by
  rw [IsIn, address_decode, size, AddressingMode.length, Nat.add_comm, bytes, Bus.readBytes,
    opcode_decode]
  congr 1
  cases hlookup : Encoding.lookup (Bus.read m address) with
  | none => simp [decode, hlookup, AddressingMode.operandBytes, Bus.readBytes]
  | some e => rw [decode_of_lookup hlookup]

theorem readBytes_size_decode (m : M) (address : Word) :
    Bus.readBytes m address (decode m address).size = (decode m address).bytes := by
  have hin := isIn_decode m address
  rwa [IsIn, address_decode] at hin

theorem nextAddress_decode (m : M) (address : Word) :
    (decode m address).nextAddress = address + UInt16.ofNat (decode m address).size := by
  rw [nextAddress, address_decode]

/-- The bytes of a listing, put together, are the bytes of memory. -/
theorem flatMap_bytes_listing (m : M) (start : Word) (count : Nat) :
    (listing m start count).flatMap bytes =
      Bus.readBytes m start (extent (listing m start count)) := by
  induction count generalizing start with
  | zero => rfl
  | succ count ih =>
      rw [listing, List.flatMap_cons, ih, extent_cons, Bus.readBytes_add, readBytes_size_decode,
        nextAddress_decode]

theorem behind_eq (m : M) (start : Word) (count : Nat) :
    behind m start count = start + UInt16.ofNat (extent (listing m start count)) := by
  apply UInt16.toNat_inj.1
  rw [toNat_behind, UInt16.toNat_add, UInt16.toNat_ofNat', Nat.add_mod_mod]
  rfl

/-- A longer listing goes on where the shorter one stopped. -/
theorem listing_add (m : M) (start : Word) (count more : Nat) :
    listing m start (count + more) =
      listing m start count ++ listing m (behind m start count) more := by
  induction count generalizing start with
  | zero => simp [listing, behind]
  | succ count ih =>
      rw [Nat.add_right_comm, listing, ih, listing, behind, List.cons_append]

theorem eq_decode_of_mem_listing {m : M} {start : Word} {count : Nat} {i : Instruction}
    (hmem : i ∈ listing m start count) : i = decode m i.address := by
  obtain ⟨k, hk⟩ := List.mem_iff_getElem?.1 hmem
  obtain ⟨hlength, -⟩ := List.getElem?_eq_some_iff.1 hk
  rw [length_listing] at hlength
  rw [getElem?_listing m start hlength] at hk
  obtain rfl := Option.some.inj hk
  rw [address_decode]

/-! ## Listing the same bytes again -/

/-- Where the bytes of a listing are, the same instructions are listed. -/
theorem listing_of_readBytes {N : Type} [Bus N] {m : M} {n : N} {start : Word} {count : Nat}
    (hread : Bus.readBytes n start (extent (listing m start count)) =
      Bus.readBytes m start (extent (listing m start count))) :
    listing n start count = listing m start count := by
  induction count generalizing start with
  | zero => rfl
  | succ count ih =>
      rw [listing, extent_cons, Bus.readBytes_add, Bus.readBytes_add] at hread
      obtain ⟨hfirst, hrest⟩ := List.append_inj hread (by simp)
      rw [← nextAddress_decode] at hrest
      have hdecode : decode n start = decode m start := by
        apply decode_of_isIn
        rw [IsIn, address_decode, hfirst, readBytes_size_decode]
      rw [listing, listing, hdecode, ih hrest]

theorem listing_load_listing (m : M) (n : Ram) (start : Word) (count : Nat) :
    listing (Bus.load n start ((listing m start count).flatMap bytes)) start count =
      listing m start count := by
  apply listing_of_readBytes
  rw [flatMap_bytes_listing, Bus.readBytes_load_readBytes]

/-! ## The tiling -/

theorem address_of_getElem?_succ {m : M} {start : Word} {count k : Nat} {i j : Instruction}
    (hi : (listing m start count)[k]? = some i)
    (hj : (listing m start count)[k + 1]? = some j) : j.address = i.nextAddress := by
  obtain ⟨hk, -⟩ := List.getElem?_eq_some_iff.1 hj
  rw [length_listing] at hk
  rw [getElem?_listing m start (Nat.lt_of_succ_lt hk)] at hi
  rw [getElem?_listing m start hk] at hj
  obtain rfl := Option.some.inj hi
  obtain rfl := Option.some.inj hj
  rw [address_decode, behind_succ]

/-- The instructions are those of memory from an address on, each behind the one before. -/
structure Tiles (code : List Instruction) (m : M) (start : Word) : Prop where
  first : ∀ i, code.head? = some i → i.address = start
  decoded : ∀ i ∈ code, i = decode m i.address
  sized : ∀ i ∈ code, 1 + i.operands.length = i.size ∧ 1 ≤ i.size ∧ i.size ≤ 3
  next : ∀ (k : Nat) (i j : Instruction), code[k]? = some i → code[k + 1]? = some j →
    j.address.toNat = (i.address.toNat + i.size) % 65536
  image : code.flatMap bytes =
    (List.range (extent code)).map fun k => Bus.read m (UInt16.ofNat (start.toNat + k))

theorem tiles_listing (m : M) (start : Word) (count : Nat) :
    Tiles (listing m start count) m start := by
  constructor
  case first =>
    intro i hi
    cases count with
    | zero => cases hi
    | succ count =>
        obtain rfl := Option.some.inj hi
        exact address_decode m start
  case decoded =>
    intro i hmem
    exact eq_decode_of_mem_listing hmem
  case sized =>
    intro i hmem
    obtain ⟨hlower, hupper⟩ := i.mode.length_bounds
    refine ⟨?_, hlower, hupper⟩
    rw [eq_decode_of_mem_listing hmem, length_operands_decode]
    rfl
  case next =>
    intro k i j hi hj
    rw [address_of_getElem?_succ hi hj, toNat_nextAddress]
  case image =>
    rw [flatMap_bytes_listing, Bus.readBytes_eq_map_range]

/-- A listing is memory cut into instructions.  It can be cut in two wherever one likes, its
bytes bring it back wherever they are loaded, and each of its entries is what a machine
shows at that address. -/
theorem listing_tiles_memory (m : M) (start : Word) (count : Nat) :
    let code := listing m start count
    code.length = count ∧ Tiles code m start ∧
    (∀ more, listing m start (count + more) =
      code ++ listing m (UInt16.ofNat (start.toNat + extent code)) more) ∧
    (∀ n : Ram, listing (Bus.load n start (code.flatMap bytes)) start count = code) ∧
    (∀ cpu : Cpu M, cpu.memory = m → ∀ i ∈ code,
      cpu.disassemble i.address = (i.text, i.size)) ∧
    ∀ machine : Machine, ∀ i ∈ listing machine.cpu.memory start count,
      let line := machine.disassemble i.address
      line.address = i.address ∧ line.bytes = i.bytes ∧ line.text = i.text ∧
        line.size = i.size ∧
        machine.cpu.disassemble i.address = (line.text, line.size) := by
  refine ⟨length_listing m start count, tiles_listing m start count, ?_,
    fun n => listing_load_listing m n start count, ?_, ?_⟩
  · intro more
    rw [listing_add, behind_eq, UInt16.ofNat_add, UInt16.ofNat_toNat]
  · rintro cpu rfl i hmem
    rw [Cpu.disassemble, ← eq_decode_of_mem_listing hmem]
  · intro machine i hmem
    have hline : machine.disassemble i.address = i :=
      (eq_decode_of_mem_listing hmem).symm
    rw [hline, Cpu.disassemble, ← eq_decode_of_mem_listing hmem]
    exact ⟨rfl, rfl, rfl, rfl, rfl⟩

/-- A jump around the end of the address space, with an undocumented opcode behind it. -/
def jumpAroundTheEnd : Ram := Bus.load Ram.zeroed 0xFFFE [0x4C, 0x34, 0x12, 0x02]

/-- The bytes of the jump go over other instructions, and nothing is left of those. -/
theorem relisted_jumpAroundTheEnd :
    let code : List Instruction :=
      [⟨0xFFFE, 0x4C, some .jmp, .absolute, [0x34, 0x12], 3⟩, ⟨0x0001, 0x02, none, .invalid, [], 0⟩]
    code[1]? = some ⟨0x0001, 0x02, none, .invalid, [], 0⟩ ∧
    listing (Bus.load (Bus.load Ram.zeroed 0xFFFD [0xBD, 0xBD, 0xBD, 0xBD, 0xBD]) 0xFFFE
      (code.flatMap bytes)) 0xFFFE 2 = code ∧
    (Machine.disassemble ⟨{ pc := 0, memory := jumpAroundTheEnd }⟩ 0x0001).text = "db $02" := by
  have hcode : listing jumpAroundTheEnd 0xFFFE 2 =
      [⟨0xFFFE, 0x4C, some .jmp, .absolute, [0x34, 0x12], 3⟩,
        ⟨0x0001, 0x02, none, .invalid, [], 0⟩] := by
    decide +kernel
  obtain ⟨-, -, -, hreload, -, hlines⟩ := listing_tiles_memory jumpAroundTheEnd 0xFFFE 2
  rw [hcode] at hreload
  obtain ⟨-, -, htext, -⟩ := hlines ⟨{ pc := 0, memory := jumpAroundTheEnd }⟩
    ⟨0x0001, 0x02, none, .invalid, [], 0⟩ (by rw [hcode]; simp)
  exact ⟨rfl, hreload _, htext.trans (by decide)⟩

end Tiling

end Instruction

end Nmos6502
