import Mathlib.Data.List.Basic
import Mathlib.Data.List.Pairwise
import Mathlib.Data.List.TakeWhile
import Mathlib.Data.Nat.Notation

/-! # Paths of requests

A server finds the route of a request by its path, cut at the slashes, and decodes the
escapes in its parameters. A client that is given a URL resolves the dots of its path
first. Where no parameter holds an escape, a slash or a dot segment, the two agree on the
segments.
-/

namespace StockMarket.Routing

/-- What stands between two slashes of a path. -/
abbrev Segment := List Char

section Decoding

/-- A character of an escaped text, or the byte of an escape. -/
inductive Piece where
  | raw (c : Char)
  | byte (n : ℕ)
  deriving DecidableEq, Repr

def hexDigit (c : Char) : Option ℕ :=
  let n := c.toNat
  if 0x30 ≤ n ∧ n ≤ 0x39 then some (n - 0x30)
  else if 0x41 ≤ n ∧ n ≤ 0x46 then some (n - 0x37)
  else if 0x61 ≤ n ∧ n ≤ 0x66 then some (n - 0x57)
  else none

def pieces : List Char → Option (List Piece)
  | [] => some []
  | c :: cs =>
      if c = '%' then
        match cs with
        | a :: b :: cs' =>
            (hexDigit a).bind fun high => (hexDigit b).bind fun low =>
              (pieces cs').map fun rest => .byte (16 * high + low) :: rest
        | _ => none
      else (pieces cs).map fun rest => .raw c :: rest

/-- How many bytes follow a first byte, and the bits it gives itself. -/
def leading (n : ℕ) : Option (ℕ × ℕ) :=
  if n < 0x80 then some (0, n)
  else if 0xC0 ≤ n ∧ n < 0xE0 then some (1, n - 0xC0)
  else if 0xE0 ≤ n ∧ n < 0xF0 then some (2, n - 0xE0)
  else if 0xF0 ≤ n ∧ n < 0xF8 then some (3, n - 0xF0)
  else none

/-- The least code that needs as many bytes more. -/
def least : ℕ → ℕ
  | 0 => 0
  | 1 => 0x80
  | 2 => 0x800
  | _ => 0x10000

def toChar (code : ℕ) : Option Char :=
  if h : code.isValidChar then some (Char.ofNatAux code h) else none

/-- The characters of the pieces, where `left` bytes of a character are still to come. -/
def assemble : List Piece → (left floor code : ℕ) → Option (List Char)
  | [], left, _, _ => if left = 0 then some [] else none
  | .raw c :: rest, left, _, _ => if left = 0 then (assemble rest 0 0 0).map (c :: ·) else none
  | .byte n :: rest, 0, _, _ =>
      (leading n).bind fun first =>
        if first.1 = 0 then
          (toChar first.2).bind fun c => (assemble rest 0 0 0).map (c :: ·)
        else assemble rest first.1 (least first.1) first.2
  | .byte n :: rest, left + 1, floor, code =>
      if 0x80 ≤ n ∧ n < 0xC0 then
        let code' := code * 64 + (n - 0x80)
        if left = 0 then
          if floor ≤ code' then
            (toChar code').bind fun c => (assemble rest 0 0 0).map (c :: ·)
          else none
        else assemble rest left floor code'
      else none

/-- `decodeURIComponent(text)`, which throws at an escape that is none. -/
def decode (text : Segment) : Option Segment := (pieces text).bind fun ps => assemble ps 0 0 0

example : decode "..%2Fa%20%C3%A9".toList = some "../a é".toList := by decide +kernel
example : decode "%C0%AF".toList = none := by decide +kernel

theorem pieces_of_not_mem {text : List Char} (h : '%' ∉ text) :
    pieces text = some (text.map .raw) := by
  induction text with
  | nil => rfl
  | cons c cs ih =>
    obtain ⟨hc, hcs⟩ := List.ne_and_not_mem_of_not_mem_cons h
    rw [pieces.eq_def]
    dsimp only
    rw [if_neg (Ne.symm hc), ih hcs]
    rfl

theorem assemble_raw (text : List Char) : assemble (text.map .raw) 0 0 0 = some text := by
  induction text with
  | nil => rfl
  | cons c cs ih =>
    rw [List.map_cons, assemble, ih]
    rfl

/-- A text without escapes is its own meaning. -/
theorem decode_of_not_mem {text : Segment} (h : '%' ∉ text) : decode text = some text := by
  rw [decode, pieces_of_not_mem h]
  exact assemble_raw text

theorem assemble_ne_nil {ps : List Piece} {left floor code : ℕ} (hne : ps ≠ []) :
    assemble ps left floor code ≠ some [] := by
  intro h
  induction ps generalizing left floor code with
  | nil => exact hne rfl
  | cons p ps ih =>
    have hmap {c : Char} {text : Option (List Char)} : text.map (c :: ·) ≠ some [] := by
      cases text <;> simp
    have hlater {left floor code : ℕ} (hleft : left ≠ 0) :
        assemble ps left floor code ≠ some [] := by
      rcases ps with _ | ⟨q, ps⟩
      · simp [assemble, hleft]
      · exact fun h => ih (by simp) h
    cases p with
    | raw c =>
      rw [assemble] at h
      split at h
      · exact hmap h
      · cases h
    | byte n =>
      cases left with
      | zero =>
        rw [assemble] at h
        obtain ⟨first, -, h⟩ := Option.bind_eq_some_iff.mp h
        split at h
        · obtain ⟨c, -, h⟩ := Option.bind_eq_some_iff.mp h
          exact hmap h
        · exact hlater ‹_› h
      | succ left =>
        simp only [assemble] at h
        split at h
        · split at h
          · split at h
            · obtain ⟨c, -, h⟩ := Option.bind_eq_some_iff.mp h
              exact hmap h
            · cases h
          · exact hlater ‹_› h
        · cases h

theorem decode_ne_nil {text decoded : Segment} (hne : text ≠ []) (h : decode text = some decoded) :
    decoded ≠ [] := by
  rintro rfl
  obtain ⟨ps, hps, h⟩ := Option.bind_eq_some_iff.mp h
  refine assemble_ne_nil ?_ h
  rintro rfl
  rcases text with _ | ⟨c, cs⟩
  · exact hne rfl
  · rw [pieces.eq_def] at hps
    dsimp only at hps
    split at hps
    · rcases cs with _ | ⟨a, _ | ⟨b, cs⟩⟩
      · cases hps
      · cases hps
      · simp [Option.bind_eq_some_iff] at hps
    · simp at hps

end Decoding

section Resolution

/-- What is cut off from the ends of a URL. -/
def isControl (c : Char) : Bool := c.toNat ≤ 0x20

/-- What is taken out of it wherever it stands. -/
def isBreak (c : Char) : Bool := c = '\t' || c = '\n' || c = '\r'

/-- What a path may not hold unescaped. -/
def isEscaped (c : Char) : Bool :=
  let n := c.toNat
  n ≤ 0x20 || 0x7F ≤ n || [0x22, 0x23, 0x3C, 0x3E, 0x3F, 0x5E, 0x60, 0x7B, 0x7D].contains n

def hexUpper (n : ℕ) : Char := Char.ofNat (if n < 10 then 0x30 + n else 0x37 + n)

def escape (c : Char) : List Char :=
  if isEscaped c then
    (String.utf8EncodeChar c).flatMap fun b =>
      ['%', hexUpper (b.toNat / 16), hexUpper (b.toNat % 16)]
  else [c]

/-- The code of a character, whatever its case. -/
def folded (c : Char) : ℕ :=
  let n := c.toNat
  if n < 0x41 then n else if n ≤ 0x5A then n + 0x20 else n

def sameLetters (s t : Segment) : Bool := s.map folded == t.map folded

def isSingleDot (s : Segment) : Bool := sameLetters s ['.'] || sameLetters s ['%', '2', 'e']

def isDoubleDot (s : Segment) : Bool :=
  sameLetters s ['.', '.'] || sameLetters s ['.', '%', '2', 'e'] ||
    sameLetters s ['%', '2', 'e', '.'] || sameLetters s ['%', '2', 'e', '%', '2', 'e']

/-- The segments after `path`, with the dots among them resolved. -/
def resolve (path : List Segment) : List Segment → List Segment
  | [] => path
  | [s] =>
      if isDoubleDot s then path.dropLast ++ [[]]
      else if isSingleDot s then path ++ [[]]
      else path ++ [s]
  | s :: t :: rest =>
      if isDoubleDot s then resolve path.dropLast (t :: rest)
      else if isSingleDot s then resolve path (t :: rest)
      else resolve (path ++ [s]) (t :: rest)

def isSlash (c : Char) : Bool :=
  let n := c.toNat
  n == 0x2F || n == 0x5C

/-- The segments of `new URL(origin + text).pathname`, where `text` begins with a slash. -/
def urlPath (text : List Char) : List Segment :=
  let input := ((text.reverse.dropWhile isControl).reverse).filter fun c => !isBreak c
  let path := input.takeWhile fun c => !(c = '?' || c = '#')
  let segments := (path.splitOnP isSlash).drop 1
  (resolve [] segments).map fun s => s.flatMap escape

def render (segments : List Segment) : List Char := segments.flatMap ('/' :: ·)

example : urlPath "/a/b/../../c d?e".toList = ["c%20d".toList] := by decide +kernel

/-- A character that neither ends a segment nor is escaped or an escape. -/
def isPlainChar (c : Char) : Bool :=
  !isEscaped c && !isSlash c && c.toNat != 0x25

structure Plain (s : Segment) : Prop where
  chars : ∀ c ∈ s, isPlainChar c
  single : s ≠ ['.']
  double : s ≠ ['.', '.']

instance (s : Segment) : Decidable (Plain s) :=
  decidable_of_iff (s.all isPlainChar ∧ s ≠ ['.'] ∧ s ≠ ['.', '.'])
    ⟨fun ⟨h₁, h₂, h₃⟩ => ⟨List.all_eq_true.mp h₁, h₂, h₃⟩,
      fun h => ⟨List.all_eq_true.mpr h.chars, h.single, h.double⟩⟩

end Resolution

section Matching

inductive Part where
  | lit (text : Segment)
  | param
  deriving DecidableEq, Repr

abbrev Pattern := List Part

/-- A segment of a route, which is a parameter where it begins with a colon. -/
def Part.of : Segment → Part
  | ':' :: _ => .param
  | text => .lit text

/-- The parts of a path that is written out, from its first slash on. -/
def Pattern.of (text : String) : Pattern := ((text.toList.splitOn '/').drop 1).map Part.of

/-- The parameters of a path that follows the pattern. -/
def matchPath : Pattern → List Segment → Option (List Segment)
  | [], [] => some []
  | .lit text :: ps, s :: segments => if sameLetters text s then matchPath ps segments else none
  | .param :: ps, s :: segments => if s = [] then none else (matchPath ps segments).map (s :: ·)
  | _, _ => none

def fill : Pattern → List Segment → List Segment
  | [], _ => []
  | .lit text :: ps, params => text :: fill ps params
  | .param :: ps, x :: params => x :: fill ps params
  | .param :: ps, [] => [] :: fill ps []

def arity (p : Pattern) : ℕ := p.count .param

/-- No path follows both patterns. -/
def clash : Pattern → Pattern → Bool
  | [], [] => false
  | .lit s :: ps, .lit t :: qs => !sameLetters s t || clash ps qs
  | _ :: ps, _ :: qs => clash ps qs
  | _, _ => true

def trimSlash (segments : List Segment) : List Segment :=
  if 1 < segments.length ∧ segments.getLast? = some [] then segments.dropLast else segments

structure Route (M H : Type) where
  method : M
  pattern : Pattern
  handler : H

variable {M H : Type} [DecidableEq M]

/-- The first route the request follows, and its parameters. -/
def find (routes : List (Route M H)) (method : M) (segments : List Segment) :
    Option (H × List Segment) :=
  routes.findSome? fun r =>
    if r.method = method then (matchPath r.pattern (trimSlash segments)).map (r.handler, ·)
    else none

end Matching

section Segments
variable {s : Segment} {segments : List Segment}

theorem escape_of_plain {c : Char} (h : isPlainChar c) : escape c = [c] := by
  have hc : isEscaped c = false := by
    simp only [isPlainChar, Bool.and_eq_true, Bool.not_eq_true'] at h
    exact h.1.1
  rw [escape, hc]
  rfl

theorem Plain.escaped (h : Plain s) : s.flatMap escape = s := by
  have hmap : ∀ c ∈ s, escape c = [c] := fun c hc => escape_of_plain (h.chars c hc)
  rw [List.flatMap_congr hmap, List.flatMap_singleton']

/-- A plain character ends nothing and is taken out nowhere. -/
theorem kept_of_plain {c : Char} (h : isPlainChar c) :
    isControl c = false ∧ isBreak c = false ∧ c ≠ '?' ∧ c ≠ '#' ∧ isSlash c = false ∧ c ≠ '%' := by
  have hother {d : Char} (hd : isPlainChar d = false) : c ≠ d := by
    rintro rfl
    rw [h] at hd
    cases hd
  have hchar := h
  simp only [isPlainChar, isEscaped, Bool.and_eq_true, Bool.not_eq_true', Bool.or_eq_false_iff,
    decide_eq_false_iff_not] at hchar
  refine ⟨decide_eq_false hchar.1.1.1.1, ?_, hother (by decide), hother (by decide), hchar.1.2,
    hother (by decide)⟩
  simp only [isBreak, Bool.or_eq_false_iff, decide_eq_false_iff_not]
  exact ⟨⟨hother (by decide), hother (by decide)⟩, hother (by decide)⟩

theorem mem_render (h : ∀ s ∈ segments, Plain s) {c : Char} (hc : c ∈ render segments) :
    isControl c = false ∧ isBreak c = false ∧ c ≠ '?' ∧ c ≠ '#' := by
  obtain ⟨s, hs, hcs⟩ := List.mem_flatMap.mp hc
  rcases List.mem_cons.mp hcs with rfl | hcs
  · decide
  · obtain ⟨h₁, h₂, h₃, h₄, -⟩ := kept_of_plain ((h s hs).chars c hcs)
    exact ⟨h₁, h₂, h₃, h₄⟩

theorem splitOnP_slash (text : List Char) :
    ('/' :: text).splitOnP isSlash = [] :: text.splitOnP isSlash := by
  rw [List.splitOnP_cons_eq_if_modifyHead, if_pos (by decide)]

theorem splitOnP_render (h : ∀ s ∈ segments, Plain s) :
    (render segments).splitOnP isSlash = [] :: segments := by
  have hnot {s : Segment} (hs : Plain s) : ∀ c ∈ s, isSlash c = false := fun c hc =>
    (kept_of_plain (hs.chars c hc)).2.2.2.2.1
  induction segments with
  | nil => rfl
  | cons s segments ih =>
    obtain ⟨hs, hsegments⟩ := List.forall_mem_cons.mp h
    have hrest : (s ++ render segments).splitOnP isSlash = s :: segments := by
      rcases segments with _ | ⟨t, rest⟩
      · rw [render, List.flatMap_nil, List.append_nil]
        exact List.splitOnP_eq_singleton (hnot hs)
      · have ih' := ih hsegments
        rw [render, List.flatMap_cons, List.cons_append] at ih' ⊢
        rw [List.splitOnP_append_cons_of_forall_mem (hnot hs) '/' rfl]
        rw [splitOnP_slash] at ih'
        exact congrArg (s :: ·) (List.cons.inj ih').2
    rw [render, List.flatMap_cons, List.cons_append, splitOnP_slash]
    exact congrArg ([] :: ·) hrest

theorem sameLetters_iff {s t : Segment} : sameLetters s t ↔ s.map folded = t.map folded := by
  rw [sameLetters, beq_iff_eq]

/-- Only a letter has another code when its case does not count. -/
theorem eq_of_folded {c d : Char} (h : folded c = folded d) (hd : d.toNat < 0x41) : c = d := by
  apply Char.ext
  apply UInt32.toNat.inj
  change c.toNat = d.toNat
  simp only [folded] at h
  split_ifs at h <;> omega

/-- A segment that has the letters of dots is made of dots. -/
theorem eq_of_sameLetters {dots : Segment} (hdots : ∀ d ∈ dots, d.toNat < 0x41)
    (h : sameLetters s dots) : s = dots := by
  rw [sameLetters_iff] at h
  induction dots generalizing s with
  | nil => exact List.map_eq_nil_iff.mp h
  | cons d dots ih =>
    obtain ⟨hd, hrest⟩ := List.forall_mem_cons.mp hdots
    rcases s with _ | ⟨c, s⟩
    · cases h
    · obtain ⟨hc, hs⟩ := List.cons.inj h
      rw [eq_of_folded hc hd, ih hrest hs]

theorem Plain.not_escaped (h : Plain s) {text : Segment} (htext : '%' ∈ text) :
    sameLetters s text = false := by
  apply Bool.eq_false_iff.mpr
  rw [Ne, sameLetters_iff]
  intro hmap
  have hmem : folded '%' ∈ s.map folded := hmap ▸ List.mem_map_of_mem htext
  obtain ⟨c, hc, hfolded⟩ := List.mem_map.mp hmem
  obtain rfl := eq_of_folded hfolded (by decide)
  exact (kept_of_plain (h.chars _ hc)).2.2.2.2.2 rfl

theorem Plain.not_dots (h : Plain s) : isDoubleDot s = false ∧ isSingleDot s = false := by
  have hsingle : sameLetters s ['.'] = false := Bool.eq_false_iff.mpr fun hsame =>
    h.single (eq_of_sameLetters (by simp) hsame)
  have hdouble : sameLetters s ['.', '.'] = false := Bool.eq_false_iff.mpr fun hsame =>
    h.double (eq_of_sameLetters (by simp) hsame)
  constructor
  · rw [isDoubleDot, hdouble, h.not_escaped (by decide), h.not_escaped (by decide),
      h.not_escaped (by decide)]
    rfl
  · rw [isSingleDot, hsingle, h.not_escaped (by decide)]
    rfl

theorem resolve_of_plain (h : ∀ s ∈ segments, Plain s) (path : List Segment) :
    resolve path segments = path ++ segments := by
  induction segments generalizing path with
  | nil => simp [resolve]
  | cons s segments ih =>
    obtain ⟨hs, hsegments⟩ := List.forall_mem_cons.mp h
    obtain ⟨hdouble, hsingle⟩ := hs.not_dots
    rcases segments with _ | ⟨t, rest⟩
    · simp [resolve, hdouble, hsingle]
    · rw [resolve, hdouble, hsingle]
      simp only [Bool.false_eq_true, if_false]
      rw [ih hsegments, List.append_assoc, List.singleton_append]

theorem urlPath_render (h : ∀ s ∈ segments, Plain s) : urlPath (render segments) = segments := by
  have hkept := fun c hc => mem_render h (c := c) hc
  have htrim : ((render segments).reverse.dropWhile isControl).reverse = render segments := by
    rw [List.dropWhile_eq_self_iff.mpr, List.reverse_reverse]
    intro hne
    have hlast := hkept _ (List.mem_reverse.mp (List.get_mem (render segments).reverse ⟨0, hne⟩))
    exact Bool.eq_false_iff.mp hlast.1
  have hfilter : (render segments).filter (fun c => !isBreak c) = render segments :=
    List.filter_eq_self.mpr fun c hc => by rw [(hkept c hc).2.1]; rfl
  have htake : (render segments).takeWhile (fun c => !(c = '?' || c = '#')) = render segments :=
    List.takeWhile_eq_self_iff.mpr fun c hc => by
      obtain ⟨-, -, h₁, h₂⟩ := hkept c hc
      simp [h₁, h₂]
  rw [urlPath, htrim, hfilter, htake, splitOnP_render h, List.drop_one, List.tail_cons,
    resolve_of_plain h, List.nil_append]
  calc segments.map (fun s => s.flatMap escape) = segments.map id :=
        List.map_congr_left fun s hs => (h s hs).escaped
    _ = segments := List.map_id segments

end Segments

section Routes
variable {M H : Type} [DecidableEq M] {p q : Pattern} {params segments : List Segment}

theorem sameLetters_comm (s t : Segment) : sameLetters s t = sameLetters t s := by
  rw [Bool.eq_iff_iff, sameLetters_iff, sameLetters_iff, eq_comm]

theorem sameLetters_trans {s t u : Segment} (hst : sameLetters s t) (htu : sameLetters t u) :
    sameLetters s u :=
  sameLetters_iff.mpr ((sameLetters_iff.mp hst).trans (sameLetters_iff.mp htu))

/-- A path that is filled in follows its pattern, with the parameters it was given. -/
theorem matchPath_fill (harity : params.length = arity p) (hne : ∀ x ∈ params, x ≠ []) :
    matchPath p (fill p params) = some params := by
  induction p generalizing params with
  | nil =>
    obtain rfl := List.length_eq_zero_iff.mp harity
    rfl
  | cons part p ih =>
    cases part with
    | lit text =>
      rw [fill, matchPath, if_pos (sameLetters_iff.mpr rfl)]
      exact ih (by rw [harity, arity, List.count_cons_of_ne (by simp), arity]) hne
    | param =>
      rcases params with _ | ⟨x, params⟩
      · simp [arity] at harity
      · obtain ⟨hx, hparams⟩ := List.forall_mem_cons.mp hne
        have hrest : params.length = arity p := by
          rw [arity, List.count_cons_self] at harity
          exact Nat.succ.inj harity
        rw [fill, matchPath, if_neg hx, ih hrest hparams]
        rfl

/-- A path that follows one pattern follows none that clashes with it. -/
theorem matchPath_of_clash (hclash : clash p q) (hp : (matchPath p segments).isSome) :
    matchPath q segments = none := by
  induction p generalizing q segments with
  | nil =>
    rcases segments with _ | ⟨s, segments⟩
    · rcases q with _ | ⟨part, q⟩
      · cases hclash
      · cases part <;> rfl
    · cases hp
  | cons part p ih =>
    rcases segments with _ | ⟨s, segments⟩
    · cases part <;> cases hp
    rcases q with _ | ⟨part', q⟩
    · rfl
    have hrest (hc : clash p q) (hm : (matchPath p segments).isSome) :
        matchPath (part' :: q) (s :: segments) = none := by
      have hnone := ih hc hm
      cases part' with
      | lit text => rw [matchPath, hnone, ite_self]
      | param => rw [matchPath, hnone, Option.map_none, ite_self]
    cases part with
    | lit text =>
      rw [matchPath] at hp
      split at hp
      · rename_i hsame
        cases part' with
        | lit text' =>
          rw [clash, Bool.or_eq_true] at hclash
          rcases hclash with hne | hclash
          · have hne' : ¬sameLetters text' s := fun hsame' => by
              rw [sameLetters_comm] at hsame'
              rw [sameLetters_trans hsame hsame'] at hne
              cases hne
            rw [matchPath, if_neg hne']
          · exact hrest hclash hp
        | param => exact hrest hclash hp
      · cases hp
    | param =>
      rw [matchPath] at hp
      split at hp
      · cases hp
      · rw [Option.isSome_map] at hp
        cases part' with
        | lit text' => exact hrest hclash hp
        | param => exact hrest hclash hp

/-- No two routes are followed by one request. -/
def Apart (routes : List (Route M H)) : Prop :=
  routes.Pairwise fun r r' => r.method ≠ r'.method ∨ clash r.pattern r'.pattern

instance (routes : List (Route M H)) : Decidable (Apart routes) :=
  inferInstanceAs (Decidable (routes.Pairwise _))

theorem find_eq_some {routes : List (Route M H)} (hroutes : Apart routes) {r : Route M H}
    (hr : r ∈ routes) (hmatch : matchPath r.pattern (trimSlash segments) = some params) :
    find routes r.method segments = some (r.handler, params) := by
  induction routes with
  | nil => cases hr
  | cons first routes ih =>
    obtain ⟨hfirst, hroutes⟩ := List.pairwise_cons.mp hroutes
    rw [find, List.findSome?_cons]
    rcases List.mem_cons.mp hr with rfl | hr
    · rw [if_pos rfl, hmatch]
      rfl
    · have hnone : (if first.method = r.method then
          (matchPath first.pattern (trimSlash segments)).map (first.handler, ·) else none) =
          none := by
        split
        · rename_i hmethod
          have hclash := (hfirst r hr).resolve_left (not_not.mpr hmethod)
          rcases hcase : matchPath first.pattern (trimSlash segments) with _ | other
          · rfl
          · rw [matchPath_of_clash hclash (by rw [hcase]; rfl)] at hmatch
            cases hmatch
        · rfl
      rw [hnone]
      exact ih hroutes hr

/-- A path that follows a pattern is found under no route that clashes with it. -/
theorem find_eq_none {routes : List (Route M H)} {method : M}
    (hroutes : ∀ r ∈ routes, r.method ≠ method ∨ clash p r.pattern)
    (hp : (matchPath p (trimSlash segments)).isSome) : find routes method segments = none := by
  rw [find, List.findSome?_eq_none_iff]
  intro r hr
  split
  · rename_i hmethod
    rw [matchPath_of_clash ((hroutes r hr).resolve_left (not_not.mpr hmethod)) hp]
    rfl
  · rfl

theorem of_find {routes : List (Route M H)} {method : M} {handler : H}
    (h : find routes method segments = some (handler, params)) :
    ∃ r ∈ routes, r.method = method ∧ r.handler = handler ∧
      matchPath r.pattern (trimSlash segments) = some params := by
  obtain ⟨r, hr, hfound⟩ := List.exists_of_findSome?_eq_some h
  split at hfound
  · rename_i hmethod
    obtain ⟨other, hmatch, hpair⟩ := Option.map_eq_some_iff.mp hfound
    cases hpair
    exact ⟨r, hr, hmethod, rfl, hmatch⟩
  · cases hfound

/-- The parameters of a path are as many as its pattern has, and none of them is empty. -/
theorem of_matchPath (h : matchPath p segments = some params) :
    params.length = arity p ∧ ∀ x ∈ params, x ≠ [] := by
  induction p generalizing segments params with
  | nil =>
    rcases segments with _ | ⟨s, segments⟩
    · cases h
      exact ⟨rfl, by simp⟩
    · cases h
  | cons part p ih =>
    rcases segments with _ | ⟨s, segments⟩
    · cases part <;> cases h
    cases part with
    | lit text =>
      rw [matchPath] at h
      split at h
      · obtain ⟨hlength, hne⟩ := ih h
        exact ⟨by rw [hlength, arity, arity, List.count_cons_of_ne (by simp)], hne⟩
      · cases h
    | param =>
      rw [matchPath] at h
      split at h
      · cases h
      · rename_i hs
        obtain ⟨rest, hrest, rfl⟩ := Option.map_eq_some_iff.mp h
        obtain ⟨hlength, hne⟩ := ih hrest
        refine ⟨?_, List.forall_mem_cons.mpr ⟨hs, hne⟩⟩
        rw [List.length_cons, hlength, arity, arity, List.count_cons_self]

end Routes

section Tidy
variable {M H : Type} [DecidableEq M] {p : Pattern} {params : List Segment}

/-- What a part stands for before it is filled in. -/
def Part.text : Part → Segment
  | .lit text => text
  | .param => []

/-- The texts of a pattern are plain, and it does not end in a slash. -/
def Pattern.Tidy (p : Pattern) : Prop :=
  (∀ part ∈ p, Plain part.text) ∧ p.getLast? ≠ some (.lit [])

instance (p : Pattern) : Decidable p.Tidy := inferInstanceAs (Decidable (_ ∧ _))

theorem plain_nil : Plain [] := ⟨by simp, by simp, by simp⟩

theorem plain_fill (hp : ∀ part ∈ p, Plain part.text) (hparams : ∀ x ∈ params, Plain x) :
    ∀ s ∈ fill p params, Plain s := by
  induction p generalizing params with
  | nil => simp [fill]
  | cons part p ih =>
    obtain ⟨hpart, hrest⟩ := List.forall_mem_cons.mp hp
    cases part with
    | lit text =>
      rw [fill]
      exact List.forall_mem_cons.mpr ⟨hpart, ih hrest hparams⟩
    | param =>
      rcases params with _ | ⟨x, params⟩
      · rw [fill]
        exact List.forall_mem_cons.mpr ⟨plain_nil, ih hrest hparams⟩
      · obtain ⟨hx, hparams⟩ := List.forall_mem_cons.mp hparams
        rw [fill]
        exact List.forall_mem_cons.mpr ⟨hx, ih hrest hparams⟩

theorem fill_eq_nil (h : fill p params = []) : p = [] := by
  rcases p with _ | ⟨_ | _, p⟩
  · rfl
  · simp [fill] at h
  · cases params <;> simp [fill] at h

/-- A path that is filled in ends as its pattern does. -/
theorem getLast?_fill (hlast : p.getLast? ≠ some (.lit [])) (harity : params.length = arity p)
    (hne : ∀ x ∈ params, x ≠ []) : (fill p params).getLast? ≠ some [] := by
  induction p generalizing params with
  | nil => simp [fill]
  | cons part p ih =>
    have hrest {rest : List Segment} {first : Segment} (hlength : rest.length = arity p)
        (hrest : ∀ x ∈ rest, x ≠ []) (hfirst : p = [] → first ≠ []) :
        (first :: fill p rest).getLast? ≠ some [] := by
      rcases hp : p with _ | ⟨part', p'⟩
      · simpa [fill] using hfirst hp
      · have hlast' : p.getLast? ≠ some (.lit []) := by
          rw [hp] at hlast ⊢
          rwa [List.getLast?_cons_cons] at hlast
        have hfilled := ih hlast' hlength hrest
        rw [← hp]
        rcases hfill : fill p rest with _ | ⟨s, segments⟩
        · rw [fill_eq_nil hfill] at hp
          cases hp
        · rw [hfill] at hfilled
          rwa [List.getLast?_cons_cons]
    cases part with
    | lit text =>
      have hlength : params.length = arity p := by
        rw [harity, arity, arity, List.count_cons_of_ne (by simp)]
      rw [fill]
      refine hrest hlength hne ?_
      rintro rfl rfl
      exact hlast rfl
    | param =>
      rcases params with _ | ⟨x, params⟩
      · simp [arity] at harity
      · obtain ⟨hx, hparams⟩ := List.forall_mem_cons.mp hne
        rw [arity, List.length_cons, List.count_cons_self] at harity
        rw [fill]
        exact hrest (Nat.succ.inj harity) hparams fun _ => hx

theorem trimSlash_urlPath (hp : p.Tidy) (harity : params.length = arity p)
    (hparams : ∀ x ∈ params, Plain x) (hne : ∀ x ∈ params, x ≠ []) :
    trimSlash (urlPath (render (fill p params))) = fill p params := by
  rw [urlPath_render (plain_fill hp.1 hparams), trimSlash,
    if_neg fun h => getLast?_fill hp.2 harity hne h.2]

/-- A client's URL with plain parameters reaches the route it was built for. -/
theorem find_render {routes : List (Route M H)} (hroutes : Apart routes) {r : Route M H}
    (hr : r ∈ routes) (hp : r.pattern.Tidy) (harity : params.length = arity r.pattern)
    (hparams : ∀ x ∈ params, Plain x) (hne : ∀ x ∈ params, x ≠ []) :
    find routes r.method (urlPath (render (fill r.pattern params))) = some (r.handler, params) := by
  apply find_eq_some hroutes hr
  rw [trimSlash_urlPath hp harity hparams hne]
  exact matchPath_fill harity hne

/-- It reaches none whose pattern clashes with its own. -/
theorem find_render_none {routes : List (Route M H)} {method : M}
    (hroutes : ∀ r ∈ routes, r.method ≠ method ∨ clash p r.pattern) (hp : p.Tidy)
    (harity : params.length = arity p) (hparams : ∀ x ∈ params, Plain x)
    (hne : ∀ x ∈ params, x ≠ []) :
    find routes method (urlPath (render (fill p params))) = none := by
  apply find_eq_none hroutes
  rw [trimSlash_urlPath hp harity hparams hne, matchPath_fill harity hne]
  rfl

end Tidy
end StockMarket.Routing
