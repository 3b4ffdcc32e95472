import HydraRT.Inference.UrlDecode
import HydraRT.Net.Serialize

/-!
# Request targets

`parse_target` splits a target into a path and the key and value pairs of its
query.  Pairs that are percent-encoded come out as they went in.
-/

namespace HydraRT.Inference

open HydraRT.Lib HydraRT.Net

/-- A `std::map` with byte strings as keys. -/
abbrev StringMap (Value : Type) := Bytes → Option Value

def StringMap.empty {Value : Type} : StringMap Value :=
  fun _ => none

/-- `map[key] = value`. -/
def StringMap.assign {Value : Type} (map : StringMap Value) (key : Bytes)
    (value : Value) : StringMap Value :=
  fun other => if other = key then some value else map other

structure HttpRequest where
  method : Bytes := []
  path : Bytes := []
  query : StringMap Bytes := StringMap.empty
  body : Bytes := []

/-- `text.find(char, pos)`, with the end of the text for `npos`. -/
def findOrEnd (text : Bytes) (char : UInt8) (pos : Nat) : Nat :=
  pos + (text.drop pos).idxOf char

/-- A pair without a `=` is dropped. -/
def assignPair (query : StringMap Bytes) (pair : Bytes) : StringMap Bytes :=
  match pair.idxOf? '='.toUInt8 with
  | none => query
  | some eq =>
      query.assign (urlDecode (pair.take eq)) (urlDecode (pair.drop (eq + 1)))

/-- The loop over the pairs of the query string `qs`. -/
def parseQuery (qs : Bytes) (pos : Nat) (query : StringMap Bytes) :
    StringMap Bytes :=
  if pos < qs.length then
    let amp := findOrEnd qs '&'.toUInt8 pos
    parseQuery qs (amp + 1) (assignPair query ((qs.drop pos).take (amp - pos)))
  else query
termination_by qs.length - pos
decreasing_by
  simp only [findOrEnd]
  omega

def parseTarget (target : Bytes) (request : HttpRequest) : HttpRequest :=
  match target.idxOf? '?'.toUInt8 with
  | none => { request with path := target }
  | some q =>
      { request with
        path := target.take q
        query := parseQuery (target.drop (q + 1)) 0 request.query }

/-! ## Percent encoding -/

def isAlphanumeric (char : UInt8) : Bool :=
  (digitIn 36 char).isSome

/-- The ways to write a byte: letters and digits as they are, a space as `+`,
and every byte as an escape. -/
inductive EncodesByte : UInt8 → Bytes → Prop where
  | plain {char : UInt8} :
      isAlphanumeric char = true → EncodesByte char [char]
  | plus : EncodesByte ' '.toUInt8 ['+'.toUInt8]
  | escape {byte first second : UInt8} {high low : Nat} :
      digitIn 16 first = some high → digitIn 16 second = some low →
      byte.toNat = 16 * high + low →
      EncodesByte byte ['%'.toUInt8, first, second]

inductive Encodes : Bytes → Bytes → Prop where
  | nil : Encodes [] []
  | cons {byte : UInt8} {text written more : Bytes} :
      EncodesByte byte written → Encodes text more →
      Encodes (byte :: text) (written ++ more)

/-- The digit of a value below 16. -/
def hexDigit (value : Nat) : UInt8 :=
  UInt8.ofNat (if value < 10 then 48 + value else 55 + value)

/-- The encoding that escapes as little as possible. -/
def percentEncode (text : Bytes) : Bytes :=
  text.flatMap fun byte =>
    if isAlphanumeric byte then [byte]
    else ['%'.toUInt8, hexDigit (byte.toNat / 16), hexDigit (byte.toNat % 16)]

structure EncodesPair (pair written : Bytes × Bytes) : Prop where
  key : Encodes pair.1 written.1
  value : Encodes pair.2 written.2

/-- `k1=v1&k2=v2...`. -/
def joinPairs (pairs : List (Bytes × Bytes)) : Bytes :=
  List.intercalate ['&'.toUInt8]
    (pairs.map fun pair => pair.1 ++ '='.toUInt8 :: pair.2)

/-- The map of the pairs: a repeated key has its last value. -/
def lastValue : List (Bytes × Bytes) → StringMap Bytes
  | [], _ => none
  | pair :: later, key =>
      (lastValue later key).or (if pair.1 = key then some pair.2 else none)

theorem digitIn_hexDigit : ∀ value < 16,
    digitIn 16 (hexDigit value) = some value := by
  decide

/-- Every text has an encoding. -/
theorem encodes_percentEncode (text : Bytes) :
    Encodes text (percentEncode text) := by
  induction text with
  | nil =>
      exact .nil
  | cons byte text inductionHypothesis =>
      rw [percentEncode, List.flatMap_cons]
      refine .cons ?_ inductionHypothesis
      by_cases alphanumeric : isAlphanumeric byte = true
      · rw [if_pos alphanumeric]
        exact .plain alphanumeric
      · rw [if_neg alphanumeric]
        have bound := byte.toNat_lt
        exact .escape (digitIn_hexDigit _ (by omega))
          (digitIn_hexDigit _ (by omega)) (by omega)

theorem isAlphanumeric_of_hex {char : UInt8} {digit : Nat}
    (found : digitIn 16 char = some digit) : isAlphanumeric char = true := by
  obtain ⟨value, small⟩ := Option.filter_eq_some_iff.mp found
  rw [isAlphanumeric, digitIn, value]
  have := of_decide_eq_true small
  simp
  omega

/-- A byte that separates nothing and starts no escape. -/
theorem ne_of_isAlphanumeric {char other : UInt8}
    (alphanumeric : isAlphanumeric char = true)
    (special : isAlphanumeric other = false) : char ≠ other := by
  rintro rfl
  rw [alphanumeric] at special
  cases special

theorem urlDecode_of_encodesByte {byte : UInt8} {written : Bytes}
    (encodes : EncodesByte byte written) (more : Bytes) :
    urlDecode (written ++ more) = byte :: urlDecode more := by
  cases encodes with
  | plain alphanumeric =>
      exact (decode_copied (ne_of_isAlphanumeric alphanumeric (by decide))
        (ne_of_isAlphanumeric alphanumeric (by decide))).1
  | plus =>
      exact (decode_plus more).1
  | @escape _ first second high low firstDigit secondDigit value =>
      change urlDecode ('%'.toUInt8 :: first :: second :: more) = _
      rw [urlDecode_escape, strtol_hex firstDigit secondDigit]
      congr 1
      apply UInt8.toNat_inj.mp
      have bound := byte.toNat_lt
      rw [UInt8.ofInt, UInt8.toNat_ofNat']
      omega

/-- Decoding undoes every encoding. -/
theorem urlDecode_of_encodes {text written : Bytes}
    (encodes : Encodes text written) : urlDecode written = text := by
  induction encodes with
  | nil =>
      rfl
  | cons byteEncodes _ inductionHypothesis =>
      rw [urlDecode_of_encodesByte byteEncodes, inductionHypothesis]

/-- Encoded text contains neither separator. -/
theorem notMem_of_encodes (separator : UInt8) {text written : Bytes}
    (encodes : Encodes text written)
    (special : isAlphanumeric separator = false)
    (notPlus : separator ≠ '+'.toUInt8)
    (notPercent : separator ≠ '%'.toUInt8) : separator ∉ written := by
  have plainByte : ∀ {char}, isAlphanumeric char = true →
      separator ≠ char := by
    intro char alphanumeric
    exact (ne_of_isAlphanumeric alphanumeric special).symm
  induction encodes with
  | nil =>
      exact List.not_mem_nil
  | cons byteEncodes _ inductionHypothesis =>
      rw [List.mem_append, not_or]
      refine ⟨?_, inductionHypothesis⟩
      cases byteEncodes with
      | plain alphanumeric =>
          simpa using plainByte alphanumeric
      | plus =>
          simpa using notPlus
      | escape firstDigit secondDigit _ =>
          simp only [List.mem_cons, List.not_mem_nil, or_false, not_or]
          exact ⟨notPercent, plainByte (isAlphanumeric_of_hex firstDigit),
            plainByte (isAlphanumeric_of_hex secondDigit)⟩

/-! ## Pairs -/

theorem idxOf?_append_cons {before after : Bytes} {char : UInt8}
    (first : char ∉ before) :
    (before ++ char :: after).idxOf? char = some before.length := by
  induction before with
  | nil =>
      simp [List.idxOf?_cons]
  | cons other before inductionHypothesis =>
      rw [List.mem_cons, not_or] at first
      rw [List.cons_append, List.idxOf?_cons, inductionHypothesis first.2]
      simp [Ne.symm first.1]

theorem assignPair_of_encodes {pair written : Bytes × Bytes}
    (encodes : EncodesPair pair written) (query : StringMap Bytes) :
    assignPair query (written.1 ++ '='.toUInt8 :: written.2) =
      query.assign pair.1 pair.2 := by
  have noEquals : '='.toUInt8 ∉ written.1 :=
    notMem_of_encodes _ encodes.key (by decide) (by decide) (by decide)
  have found :
      (written.1 ++ '='.toUInt8 :: written.2).idxOf? '='.toUInt8 =
        some written.1.length :=
    idxOf?_append_cons noEquals
  have afterEquals :
      (written.1 ++ '='.toUInt8 :: written.2).drop (written.1.length + 1) =
        written.2 := by
    rw [← List.drop_drop, List.drop_left]
    rfl
  rw [assignPair, found]
  simp only [List.take_left, afterEquals, urlDecode_of_encodes encodes.key,
    urlDecode_of_encodes encodes.value]

/-- The loop takes the bytes up to the next `&` for a pair. -/
theorem parseQuery_pair (before : Bytes) {pair after : Bytes}
    (nonempty : pair ≠ []) (noAmp : '&'.toUInt8 ∉ pair)
    (ends : after = [] ∨ ∃ rest, after = '&'.toUInt8 :: rest)
    (query : StringMap Bytes) :
    parseQuery (before ++ (pair ++ after)) before.length query =
      parseQuery (before ++ (pair ++ after))
        (before.length + pair.length + 1) (assignPair query pair) := by
  have positive := List.length_pos_iff.mpr nonempty
  have more : before.length < (before ++ (pair ++ after)).length := by
    simp only [List.length_append]
    omega
  have amp : (pair ++ after).idxOf '&'.toUInt8 = pair.length := by
    rw [List.idxOf_append_of_notMem noAmp]
    rcases ends with rfl | ⟨rest, rfl⟩
    · simp
    · simp
  rw [parseQuery, if_pos more]
  simp only [findOrEnd, List.drop_left, amp, Nat.add_sub_cancel_left,
    List.take_left]

theorem parseQuery_end {qs : Bytes} {pos : Nat} (atEnd : qs.length ≤ pos)
    (query : StringMap Bytes) : parseQuery qs pos query = query := by
  rw [parseQuery, if_neg (Nat.not_lt.mpr atEnd)]

/-- The loop assigns the pairs one after another. -/
theorem parseQuery_of_encodes {pairs written : List (Bytes × Bytes)}
    (encodes : List.Forall₂ EncodesPair pairs written) (before : Bytes)
    (query : StringMap Bytes) :
    parseQuery (before ++ joinPairs written) before.length query =
      pairs.foldl (fun map pair => map.assign pair.1 pair.2) query := by
  induction encodes generalizing before query with
  | nil =>
      exact parseQuery_end (by simp [joinPairs]) query
  | @cons pair first pairs written pairEncodes others inductionHypothesis =>
      have noAmp : '&'.toUInt8 ∉ first.1 ++ '='.toUInt8 :: first.2 := by
        have inKey := notMem_of_encodes '&'.toUInt8
          pairEncodes.key (by decide) (by decide) (by decide)
        have inValue := notMem_of_encodes '&'.toUInt8
          pairEncodes.value (by decide) (by decide) (by decide)
        simp only [List.mem_append, List.mem_cons, not_or]
        exact ⟨inKey, by decide, inValue⟩
      have nonempty : first.1 ++ '='.toUInt8 :: first.2 ≠ [] := by
        simp
      rw [List.foldl_cons, ← assignPair_of_encodes pairEncodes query]
      cases written with
      | nil =>
          cases others
          have step := parseQuery_pair before nonempty noAmp
            (Or.inl rfl) query
          rw [List.append_nil] at step
          rw [joinPairs, List.map_singleton, List.intercalate_singleton,
            step, List.foldl_nil]
          apply parseQuery_end
          rw [List.length_append]
          omega
      | cons second rest =>
          have split : joinPairs (first :: second :: rest) =
              (first.1 ++ '='.toUInt8 :: first.2) ++
                '&'.toUInt8 :: joinPairs (second :: rest) := by
            simp [joinPairs]
          rw [split, parseQuery_pair before nonempty noAmp (Or.inr ⟨_, rfl⟩),
            ← inductionHypothesis
              (before ++ (first.1 ++ '='.toUInt8 :: first.2) ++
                ['&'.toUInt8])]
          congr 1
          · simp
          · simp only [List.length_append, List.length_singleton]

/-- Assigning in order leaves every key its last value. -/
theorem foldl_assign_eq (pairs : List (Bytes × Bytes))
    (query : StringMap Bytes) (key : Bytes) :
    pairs.foldl (fun map pair => map.assign pair.1 pair.2) query key =
      (lastValue pairs key).or (query key) := by
  induction pairs generalizing query with
  | nil =>
      rfl
  | cons pair later inductionHypothesis =>
      rw [List.foldl_cons, inductionHypothesis, lastValue, Option.or_assoc]
      congr 1
      by_cases same : pair.1 = key
      · simp [StringMap.assign, same]
      · simp [StringMap.assign, same, Ne.symm same]

/-- A path and percent-encoded pairs come out of `parse_target` as they went
into the target. -/
theorem parseTarget_of_encodes (path : Bytes)
    (noQuestion : '?'.toUInt8 ∉ path) (pairs written : List (Bytes × Bytes))
    (encodes : List.Forall₂ EncodesPair pairs written)
    (method body : Bytes) :
    parseTarget (path ++ '?'.toUInt8 :: joinPairs written)
        { method := method, body := body } =
      { method := method, path := path, query := lastValue pairs,
        body := body } := by
  have afterQuestion :
      (path ++ '?'.toUInt8 :: joinPairs written).drop (path.length + 1) =
        joinPairs written := by
    rw [← List.drop_drop, List.drop_left]
    rfl
  have query := parseQuery_of_encodes encodes [] .empty
  rw [List.nil_append, List.length_nil] at query
  have lastValues :
      pairs.foldl (fun map pair => map.assign pair.1 pair.2)
        StringMap.empty = lastValue pairs := by
    funext key
    rw [foldl_assign_eq, StringMap.empty, Option.or_none]
  rw [parseTarget, idxOf?_append_cons noQuestion]
  simp only [List.take_left, afterQuestion, query, lastValues]

/-- `/a?%26=%3d+&b=&%26=2`: a repeated key and an empty value. -/
theorem parseTarget_of_encodes_three :
    parseTarget (ascii "/a?%26=%3d+&b=&%26=2") {} =
      { path := ascii "/a"
        query := lastValue [(ascii "&", ascii "= "), (ascii "b", []),
          (ascii "&", ascii "2")] } :=
  parseTarget_of_encodes (ascii "/a") (by decide)
    [(ascii "&", ascii "= "), (ascii "b", []), (ascii "&", ascii "2")]
    [(ascii "%26", ascii "%3d+"), (ascii "b", []), (ascii "%26", ascii "2")]
    (.cons ⟨.cons (.escape rfl rfl rfl) .nil,
        .cons (.escape rfl rfl rfl) (.cons .plus .nil)⟩
      (.cons ⟨.cons (.plain rfl) .nil, .nil⟩
        (.cons ⟨.cons (.escape rfl rfl rfl) .nil, .cons (.plain rfl) .nil⟩
          .nil)))
    [] []

end HydraRT.Inference
