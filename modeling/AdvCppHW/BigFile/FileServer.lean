import AdvCppHW.BigFile.BinarySearch
import AdvCppHW.HTTP.HTTPMessage
import AdvCppHW.Support.Records

/-!
# A server of the entries of a file

The programs `example/fileGenerator.cpp` and `example/server.cpp`: the file that the first one
writes is mapped by the second, which answers requests for its keys.

* `Loaded` — the memory behind a mapping: whole pages, the last one filled up with zeros.  What can
  be read around them is left open.
* `onRequest` — the answer to a request; `none` where reading faults or the search is undefined.
* `getEntry_generated` — what a reader of the generated file finds.
* `fileServer_answers` — all answers of the server of a generated file.
-/

namespace AdvCppHW
namespace BigFile

open Data Support Support.BinarySearch Support.Records HTTP

/-! ## The mapping -/

/-- The bytes between the end of a file and the end of its last page. -/
def padding (page size : Nat) : Nat := (page - size % page) % page

/-- The pages of a mapped file. -/
def pages (page : Nat) (file : Bytes) : Bytes := file ++ List.replicate (padding page file.length) 0

/-- The pages of the file are mapped at `base`. -/
def Loaded (memory : Memory) (page : Nat) (base : Address) (file : Bytes) : Prop :=
  ∀ i : Nat, i < (pages page file).length → memory (base + i) = (pages page file)[i]?

/-- `Mmap::Mmap`, for a file that is mapped at `base`; a file that cannot be opened is `none`, and
`::mmap` fails for an empty one. -/
def Mmap.new (base : Address) : Option Bytes → Except Exception Mmap
  | none => .error (.DescriptorError "Error getting descriptor status!")
  | some file =>
      if file.length = 0 then
        .error (.DescriptorError "Failed to map file to memory!")
      else
        .ok ⟨base, file.length⟩

/-! ## The programs -/

/-- `msg` of `fileGenerator.cpp`. -/
def msg : Bytes := ascii "ABCDEFGHIJKLMNOPQRST"

/-- The bytes of an `Entry` with this key. -/
def entryBytes (key : Key) : Bytes := littleEndian 8 key.toNat ++ msg

/-- The file that `fileGenerator.cpp` writes. -/
def fileGenerator (numEntries : UInt64) : Bytes :=
  (List.range numEntries.toNat).flatMap fun i => entryBytes (UInt64.ofNat i)

/-- `std::string((char *)address, size)`. -/
def readBytes (memory : Memory) (address : Address) (size : Nat) : Option Bytes :=
  (List.range size).mapM fun (i : Nat) => memory (address + i)

/-- `memcpy(&key, bytes.data(), sizeof(key))`. -/
def keyOf (bytes : Bytes) : Key := bytes.foldr (fun b key => b.toUInt64 + 256 * key) 0

/-- `ss >> key`: the greatest value where the number is too great, zero where there are no digits,
and `none` where nothing but blanks is left, so that `key` keeps its value. -/
def extractKey (s : Bytes) : Option Key :=
  match s.dropWhile isSpace with
  | [] => none
  | b :: rest =>
      let signed := splitSign (b :: rest)
      let value := digitsValue (signed.2.takeWhile isDigit)
      some (if 2 ^ 64 ≤ value then UInt64.ofNat (2 ^ 64 - 1)
        else if signed.1 then UInt64.ofNat (2 ^ 64 - value) else UInt64.ofNat value)

def reqFormat : Bytes := ascii "/?entry=x"

def reqFormatDataPos : Nat := (find reqFormat (ascii "=") 0).getD 0 + 1

/-- `resp` before its status is set. -/
def startedResponse : HTTPResponse :=
  let resp : HTTPResponse := {}
  { resp with
    toHTTPMessage :=
      (resp.setHTTPversion (ascii "1.1")).addHeaderLine (ascii "Server") (ascii "MyFileServer") }

/-- `Server::onRequest`; `indeterminate` is what `key` holds when it is not read. -/
def onRequest (memory : Memory) (m_reader : Mmap) (indeterminate : Key) (req : HTTPRequest) :
    Option HTTPResponse :=
  let requested := req.m_reqTarget
  if requested.length < reqFormat.length then
    some { startedResponse with m_statusCode := 404 }
  else if requested.take 8 ≠ ascii "/?entry=" then
    some { startedResponse with m_statusCode := 404 }
  else do
    let key := (extractKey (requested.drop reqFormatDataPos)).getD indeterminate
    let p ← Reader.getEntry memory m_reader key
    match p with
    | none => some { startedResponse with m_statusCode := 404 }
    | some p => do
        let response ← readBytes memory p 28
        let answerKey := keyOf (response.take 8)
        some { startedResponse with
          m_statusCode := 200
          m_body := to_string answerKey.toNat ++ (SP ++ response.drop 8) }

/-! ## What it is asked, and answers -/

/-- The key that a target asks for, if it asks for one. -/
def asked (indeterminate : Key) (target : Bytes) : Option Key :=
  if 9 ≤ target.length ∧ target.take 8 = ascii "/?entry=" then
    some ((extractKey (target.drop 8)).getD indeterminate)
  else
    none

def notFound : HTTPResponse := { startedResponse with m_statusCode := 404 }

def found (key : Key) (data : Bytes) : HTTPResponse :=
  { startedResponse with m_statusCode := 200, m_body := to_string key.toNat ++ (SP ++ data) }

theorem onRequest_eq (memory : Memory) (m_reader : Mmap) (indeterminate : Key) (req : HTTPRequest) :
    onRequest memory m_reader indeterminate req =
      match asked indeterminate req.m_reqTarget with
      | none => some notFound
      | some key =>
          match Reader.getEntry memory m_reader key with
          | none => none
          | some none => some notFound
          | some (some p) =>
              (readBytes memory p 28).map fun response =>
                found (keyOf (response.take 8)) (response.drop 8) := by
  have hlength : reqFormat.length = 9 := by decide
  have hpos : reqFormatDataPos = 8 := by decide +kernel
  simp only [onRequest, asked, hlength, hpos]
  by_cases hlong : 9 ≤ req.m_reqTarget.length
  · by_cases hprefix : req.m_reqTarget.take 8 = ascii "/?entry="
    · rw [if_neg (not_lt.mpr hlong), if_neg (not_not.mpr hprefix), if_pos ⟨hlong, hprefix⟩]
      simp only
      cases Reader.getEntry memory m_reader
        ((extractKey (req.m_reqTarget.drop 8)).getD indeterminate) with
      | none => rfl
      | some entry =>
          cases entry with
          | none => rfl
          | some p =>
              cases hread : readBytes memory p 28 with
              | none => simp [hread]
              | some response => simp [hread, found]
    · rw [if_neg (not_lt.mpr hlong), if_pos hprefix, if_neg fun h => hprefix h.2]
      rfl
  · rw [if_pos (not_le.mp hlong), if_neg fun h => hlong h.1]
    rfl

theorem readKey_eq (memory : Memory) (address : Address) :
    readKey memory address = (readBytes memory address 8).map keyOf := by
  have hbytes : ([0, 1, 2, 3, 4, 5, 6, 7] : List Int).mapM (fun i => memory (address + i)) =
      readBytes memory address 8 := rfl
  show (([0, 1, 2, 3, 4, 5, 6, 7] : List Int).mapM fun i => memory (address + i)).bind _ = _
  rw [hbytes]
  cases readBytes memory address 8 with
  | none => rfl
  | some bytes => rfl

theorem keyOf_eq (bytes : Bytes) : keyOf bytes = UInt64.ofNat (ofLittleEndian bytes) := by
  induction bytes with
  | nil => rfl
  | cons b bytes ih =>
      show b.toUInt64 + 256 * keyOf bytes = _
      rw [ih, ofLittleEndian_cons, UInt64.ofNat_add, UInt64.ofNat_mul]
      simp

/-! ## Reading the generated file -/

/-- Bytes of the pages are read from an offset on. -/
theorem readBytes_loaded {memory : Memory} {page : Nat} {base : Address} {file : Bytes}
    (h : Loaded memory page base file) {offset size : Nat}
    (hinside : offset + size ≤ (pages page file).length) :
    readBytes memory (base + offset) size = some (((pages page file).drop offset).take size) := by
  refine mapM_range_eq_slice (fun i hi => ?_) hinside
  have hoffset : base + offset + i = base + (offset + i : Nat) := by
    push_cast
    ring
  rw [hoffset, h (offset + i) (by omega)]

theorem length_entryBytes (key : Key) : (entryBytes key).length = 28 := by
  rw [entryBytes, List.length_append, length_littleEndian]
  decide

section Generated

variable (page : Nat) (base : Address) (numEntries : UInt64)

theorem length_fileGenerator : (fileGenerator numEntries).length = 28 * numEntries.toNat := by
  rw [fileGenerator, length_flatMap fun i => length_entryBytes (UInt64.ofNat i), List.length_range]

theorem length_pages_generated : (pages page (fileGenerator numEntries)).length =
    28 * numEntries.toNat + padding page (28 * numEntries.toNat) := by
  rw [pages, List.length_append, List.length_replicate, length_fileGenerator]

theorem entryAt_natCast (i : Nat) : entryAt base i = base + (28 * i : Nat) := by
  simp only [entryAt, sizeofEntry]
  omega

theorem keyOf_entryBytes (key : Key) : keyOf ((entryBytes key).take 8) = key := by
  have htake : (entryBytes key).take 8 = littleEndian 8 key.toNat := by
    rw [entryBytes, List.take_left' (length_littleEndian 8 _)]
  have hsmall : key.toNat < 256 ^ 8 := key.toNat_lt
  rw [htake, keyOf_eq, ofLittleEndian_littleEndian, Nat.mod_eq_of_lt hsmall, UInt64.ofNat_toNat]

variable {page base numEntries} {memory : Memory}
  (hloaded : Loaded memory page base (fileGenerator numEntries))
include hloaded

/-- The first bytes of an entry of the file, or all of them. -/
theorem readBytes_entry {i : Nat} (hi : i < numEntries.toNat) {size : Nat} (hsize : size ≤ 28) :
    readBytes memory (entryAt base i) size = some ((entryBytes (UInt64.ofNat i)).take size) := by
  have hslice : ((pages page (fileGenerator numEntries)).drop (28 * i)).take 28 =
      entryBytes (UInt64.ofNat i) :=
    slice_flatMap (fun i => length_entryBytes (UInt64.ofNat i)) (List.getElem?_range hi) _
  have hlength := length_pages_generated page numEntries
  rw [entryAt_natCast, readBytes_loaded hloaded (by omega), ← hslice, List.take_take,
    min_eq_left hsize]

/-- The key of an entry is its index. -/
theorem keyAt_generated {i : Int} (hi : 0 ≤ i) (hin : i < numEntries.toNat) :
    keyAt memory base i = some (UInt64.ofNat i.toNat) := by
  obtain ⟨i, rfl⟩ := Int.eq_ofNat_of_zero_le hi
  have hin' : i < numEntries.toNat := by omega
  rw [keyAt, readKey_eq, readBytes_entry hloaded hin' (by decide), Option.map_some,
    keyOf_entryBytes, Int.toNat_natCast]

/-- Behind the last entry there are zeros, as far as the last page goes. -/
theorem readKey_behind
    (hroom : 28 * numEntries.toNat + 8 ≤ (pages page (fileGenerator numEntries)).length) :
    readKey memory (entryAt base numEntries.toNat) = some 0 := by
  have hpadding : 8 ≤ padding page (28 * numEntries.toNat) := by
    rw [length_pages_generated] at hroom
    omega
  have hbehind : (pages page (fileGenerator numEntries)).drop (28 * numEntries.toNat) =
      List.replicate (padding page (28 * numEntries.toNat)) 0 := by
    rw [pages, ← length_fileGenerator, List.drop_left]
  rw [entryAt_natCast, readKey_eq, readBytes_loaded hloaded hroom, hbehind, List.take_replicate,
    min_eq_left hpadding, Option.map_some, keyOf_eq, ofLittleEndian_zeros]
  rfl

/-- What a reader of the generated file finds: each key at its place; another key only if it stands
in the slot behind the last entry. -/
theorem getEntry_generated (hsome : numEntries ≠ 0) (key : Key) :
    Reader.getEntry memory ⟨base, 28 * numEntries.toNat⟩ key =
      if key < numEntries then some (some (entryAt base key.toNat))
      else (readKey memory (entryAt base numEntries.toNat)).map fun behind =>
        if behind = key then some (entryAt base numEntries.toNat) else none := by
  have hread := fun i => keyAt_generated hloaded (i := i)
  have hwhole : (⟨base, 28 * numEntries.toNat⟩ : Mmap).Whole :=
    Dvd.intro (numEntries.toNat : Int) (by simp [sizeofEntry])
  have hentries : (⟨base, 28 * numEntries.toNat⟩ : Mmap).entries = numEntries.toNat := by
    simp only [Mmap.entries, sizeofEntry]
    omega
  have hindex : ∀ i : Int, 0 ≤ i → i < numEntries.toNat →
      (UInt64.ofNat i.toNat).toNat = i.toNat := by
    intro i hi hin
    have hmax := numEntries.toNat_lt
    have hsmall : i.toNat < 2 ^ 64 := by omega
    exact UInt64.toNat_ofNat_of_lt' hsmall
  have hsearch := (getEntry_eq memory hwhole key).1
  rw [Reader.getEntry, hsearch, hentries]
  by_cases hkey : key < numEntries
  · -- the key is the one with its own index
    have hlt : key.toNat < numEntries.toNat := UInt64.lt_iff_toNat_lt.mp hkey
    have hsorted : Ascending (keyAt memory base) numEntries.toNat := by
      intro i j ki kj hi hij hj hki hkj
      cases (hread i hi (by omega)).symm.trans hki
      cases (hread j (by omega) hj).symm.trans hkj
      rw [UInt64.le_iff_toNat_le, hindex i hi (by omega), hindex j (by omega) hj]
      omega
    have hhere : keyAt memory base key.toNat = some key := by
      rw [hread key.toNat (by omega) (by omega), Int.toNat_natCast, UInt64.ofNat_toNat]
    have hkeys : ∀ i, 0 ≤ i → i < (numEntries.toNat : Int) → (keyAt memory base i).isSome := by
      intro i hi hin
      rw [hread i hi hin]
      rfl
    have hlt' : (key.toNat : Int) < numEntries.toNat := by omega
    obtain ⟨m, hm, hm₀, hmn⟩ := search_found hsorted hkeys le_rfl le_rfl
      (Int.natCast_nonneg key.toNat) hlt'.le hlt' hhere
    have hfound := (search_sound hm).1
    cases (hread m hm₀ hmn).symm.trans hfound
    rw [if_pos hkey, hindex m hm₀ hmn, Int.toNat_of_nonneg hm₀]
    exact congrArg _ hm
  · -- all keys are smaller, and the slot behind them is read
    have hle : numEntries.toNat ≤ key.toNat := by
      have := mt UInt64.lt_iff_toNat_lt.mpr hkey
      omega
    have hpos : 0 < numEntries.toNat := Nat.pos_of_ne_zero fun h => hsome (UInt64.toNat_inj.mp h)
    have hsmall : ∀ i, 0 ≤ i → i < (numEntries.toNat : Int) →
        ∃ k, keyAt memory base i = some k ∧ k < key := by
      intro i hi hin
      refine ⟨_, hread i hi hin, ?_⟩
      rw [UInt64.lt_iff_toNat_lt, hindex i hi hin]
      omega
    have hbehind := search_behind (by omega) hsmall
    rw [if_neg hkey, hbehind, search_self, keyAt]
    cases readKey memory (entryAt base numEntries.toNat) with
    | none => rfl
    | some k =>
        by_cases heq : k = key
        · simp [heq]
        · simp [heq]

end Generated

/-- The answer to a request for a key that is not in the file, from what stands behind the file. -/
def answerBehind (memory : Memory) (behind : Address) (key : Key) : Option HTTPResponse :=
  (readKey memory behind).bind fun k =>
    if k = key then (readBytes memory behind 28).map fun response => found key (response.drop 8)
    else some notFound

theorem answer_behind (memory : Memory) (behind : Address) (key : Key) :
    (match (readKey memory behind).map fun k => if k = key then some behind else none with
      | none => none
      | some none => some notFound
      | some (some p) =>
          (readBytes memory p 28).map fun response =>
            found (keyOf (response.take 8)) (response.drop 8)) =
      answerBehind memory behind key := by
  rw [answerBehind]
  cases hread : readKey memory behind with
  | none => rfl
  | some k =>
      by_cases heq : k = key
      · -- the key that was compared is the one that is sent
        subst heq
        simp only [Option.map_some, Option.bind_some, if_true]
        cases hbytes : readBytes memory behind 28 with
        | none => rfl
        | some response =>
            have hfirst : readBytes memory behind 8 = some (response.take 8) :=
              mapM_range_take (by decide) hbytes
            rw [readKey_eq, hfirst] at hread
            cases hread
            rfl
      · simp [heq]

/-- **The server of a generated file.**  Without entries it does not start.  Otherwise it answers
every request: those that ask for no key with "Not Found", those for a key in the file with the key
and its data.  For another key the slot behind the last entry is read.  The answer is "Not Found" if
the last page has room for its key; if it has not, the key is read outside of the pages of the file,
and what stands there decides: the read faults, the answer is "Not Found", or it is those bytes. -/
theorem fileServer_answers {memory : Memory} {page : Nat} {base : Address} {numEntries : UInt64}
    (hloaded : Loaded memory page base (fileGenerator numEntries)) :
    match Mmap.new base (some (fileGenerator numEntries)) with
    | .error e => numEntries = 0 ∧ e = .DescriptorError "Failed to map file to memory!"
    | .ok m_reader => numEntries ≠ 0 ∧ ∀ indeterminate req,
        onRequest memory m_reader indeterminate req =
          match asked indeterminate req.m_reqTarget with
          | none => some notFound
          | some key =>
              if key < numEntries then some (found key msg)
              else if 28 * numEntries.toNat + 8 ≤
                (pages page (fileGenerator numEntries)).length then
                some notFound
              else answerBehind memory (entryAt base numEntries.toNat) key := by
  have hlength := length_fileGenerator numEntries
  by_cases hzero : numEntries = 0
  · rw [Mmap.new, if_pos (by rw [hlength, hzero]; rfl)]
    exact ⟨hzero, rfl⟩
  · have hpos : numEntries.toNat ≠ 0 := fun h => hzero (UInt64.toNat_inj.mp h)
    rw [Mmap.new, if_neg (by omega), hlength]
    refine ⟨hzero, fun indeterminate req => ?_⟩
    rw [onRequest_eq]
    cases asked indeterminate req.m_reqTarget with
    | none => rfl
    | some key =>
        simp only [getEntry_generated hloaded hzero key]
        by_cases hkey : key < numEntries
        · have hentry := readBytes_entry hloaded (UInt64.lt_iff_toNat_lt.mp hkey) le_rfl
          have hall : (entryBytes key).take 28 = entryBytes key :=
            List.take_of_length_le (length_entryBytes key).le
          have hdata : (entryBytes key).drop 8 = msg := List.drop_left' (length_littleEndian 8 _)
          rw [UInt64.ofNat_toNat, hall] at hentry
          simp only [if_pos hkey, hentry, Option.map_some, keyOf_entryBytes, hdata]
        · rw [if_neg hkey, if_neg hkey]
          have hbehind := answer_behind memory (entryAt base numEntries.toNat) key
          by_cases hroom :
              28 * numEntries.toNat + 8 ≤ (pages page (fileGenerator numEntries)).length
          · have hne : (0 : Key) ≠ key := fun h => hkey (h ▸ UInt64.pos_iff_ne_zero.mpr hzero)
            rw [if_pos hroom, readKey_behind hloaded hroom, Option.map_some, if_neg hne]
          · rw [if_neg hroom]
            exact hbehind

example : asked 7 (ascii "/?entry=12x") = some 12 ∧
    asked 7 (ascii "/?entry=-1") = some (2 ^ 64 - 1) ∧
    asked 7 (ascii "/?entry= ") = some 7 ∧ asked 7 (ascii "/?entry=") = none := by decide +kernel

/-- The pages of the file, and nothing around them. -/
def onlyFile (page : Nat) (base : Address) (file : Bytes) : Memory := fun address =>
  if address < base then none else (pages page file)[(address - base).toNat]?

theorem loaded_onlyFile (page : Nat) (base : Address) (file : Bytes) :
    Loaded (onlyFile page base file) page base file := by
  intro i hi
  have haddress : ∀ b : Int, ¬ b + i < b ∧ (b + i - b).toNat = i := by
    intro b
    omega
  rw [onlyFile, if_neg (haddress base).1, (haddress base).2]

/-- The server of three entries is asked for the last one. -/
theorem fileServer_answers_three :
    onRequest (onlyFile 4096 0 (fileGenerator 3)) ⟨0, 84⟩ 0 { m_reqTarget := ascii "/?entry=2" } =
      some (found 2 msg) := by
  have hanswers := fileServer_answers (loaded_onlyFile 4096 0 (fileGenerator 3))
  have hlength : (fileGenerator 3).length = 84 := by decide +kernel
  have hmapped : Mmap.new 0 (some (fileGenerator 3)) = .ok ⟨0, 84⟩ := by
    rw [Mmap.new, hlength]
    rfl
  rw [hmapped] at hanswers
  have hasked : asked 0 (ascii "/?entry=2") = some 2 := by decide +kernel
  rw [hanswers.2, hasked]
  rfl

end BigFile
end AdvCppHW
