import Octo.Deployment.Env

/-!
# Which integrations are networked

`run-host/src/ports.ts` decides from the `env` declarations of a document whether a run needs a
port, and so does `resolveRuntimeEnv` of the orchestrator. The first stops at the first `HTTP_PORT`
and reads its default with `parseInt`; the second looks at all of them and uses `strconv.Atoi`.

* `scanEnv_eq_true_iff` — the first `HTTP_PORT` has to start with a port number.
* `exposable_iff` — some `HTTP_PORT` has to be a port number.
* `networked_agree_iff` — where the two agree.
* `networked_disagree` — a second declaration, and a port with a protocol behind it.
-/

namespace Octo.RunHost

open List Option
open Octo.Foundation (trimSpace isWhiteSpace)
open Octo.Deployment

/-! ## Documents -/

/-- A YAML scalar: its value, and what is written where the value does not say it. A number that is
not finite has no value. -/
inductive Scalar where
  | null
  | bool (value : Bool) (written : String)
  | number (value : Option Rat) (written : String)
  | str (text : String)

/-- An entry of `env`, as far as it is read. -/
structure EnvEntry where
  name : Option Scalar
  default : Option Scalar

/-- A document that both parsers accept: its `env`, which may be missing, and whose items may be
null. -/
structure Document where
  env : Option (List (Option EnvEntry))

/-! ## The run host -/

def trim (s : String) : String := String.ofList (Foundation.trim isWhiteSpace s.toList)

/-- A number with an optional sign, of which `digits` takes the digits. -/
def signed (digits : List Char → List Char) : List Char → Option Int
  | '-' :: rest => (decimal (digits rest)).map fun n => -(n : Int)
  | '+' :: rest => (decimal (digits rest)).map Int.ofNat
  | rest => (decimal (digits rest)).map Int.ofNat

/-- `parseInt(s, 10)`: leading white space, a sign and as many digits as follow. -/
def parseInt (s : String) : Option Int :=
  signed (List.takeWhile Char.isDigit) (s.toList.dropWhile isWhiteSpace)

def inRange (p : Int) : Bool := 0 < p && p ≤ 65535

/-- `String(raw)` of a default that is no number. -/
def Scalar.toText : Scalar → String
  | .null => "null"
  | .bool value _ => if value then "true" else "false"
  | .number _ written => written
  | .str text => text

/-- Whether the default of `HTTP_PORT` is a usable port for the run host. -/
def usableDefault : Option Scalar → Bool
  | some (.number (some value) _) => value.den = 1 && inRange value.num
  | some (.number none _) => false
  | some raw => (parseInt (trim raw.toText)).any inRange
  | none => (parseInt (trim "undefined")).any inRange

/-- The loop of `isExposable`; a name without `trim` makes it throw. -/
def scanEnv : List (Option EnvEntry) → Option Bool
  | [] => some false
  | e :: rest =>
    match e.bind (·.name) with
    | none => scanEnv rest
    | some .null => scanEnv rest
    | some (.bool _ _) => none
    | some (.number _ _) => none
    | some (.str name) =>
      if trim name ≠ envHTTPPort then scanEnv rest else some (usableDefault (e.bind (·.default)))

/-- With what `YAML.parse` returns: nothing when it throws, and a document that may be null. -/
def isExposable (parsed : Option (Option Document)) : Option Bool := match parsed with
  | none => some false
  | some doc => scanEnv ((doc.bind (·.env)).getD [])

/-! ## The orchestrator -/

def Scalar.decoded : Scalar → Option String
  | .null => none
  | .bool _ written => some written
  | .number _ written => some written
  | .str text => some text

variable (e : Option EnvEntry)

/-- An entry as `yaml.Unmarshal` stores it in `envDecl`. -/
def decodeEntry : EnvDecl :=
  ⟨((e.bind (·.name)).bind Scalar.decoded).getD "", (e.bind (·.default)).bind Scalar.decoded⟩

variable (doc : Option Document)

def decodeEnv : List EnvDecl := ((doc.bind (·.env)).getD []).map decodeEntry

/-! ## Port numbers in a text -/

/-- The text is a port number, possibly with a plus, and then `rest`. -/
def PortThen (text rest : List Char) : Prop :=
  ∃ sign digits n, (sign = [] ∨ sign = ['+']) ∧ text = sign ++ (digits ++ rest) ∧
    decimal digits = some n ∧ 0 < n ∧ n ≤ 65535

def StartsWithPort (text : List Char) : Prop :=
  ∃ rest, PortThen text rest ∧ ∀ c, rest.head? = some c → c.isDigit = false

theorem decimal_digits {digits : List Char} {n : Nat} (h : decimal digits = some n) :
    digits ≠ [] ∧ ∀ c ∈ digits, c.isDigit = true := by
  unfold decimal at h
  split at h
  next hd =>
    simpa using hd
  · cases h

theorem any_inRange {digits : List Char} : ((decimal digits).map Int.ofNat).any inRange = true ↔
      ∃ n, decimal digits = some n ∧ 0 < n ∧ n ≤ 65535 := by
  cases decimal digits with
  | none => simp
  | some =>
    simp only [map_some, any_some, inRange, Bool.and_eq_true, decide_eq_true_eq,
      Option.some.injEq, exists_eq_left', Int.ofNat_eq_natCast]
    omega

theorem signed_port {digits : List Char → List Char} {text : List Char}
    (hstop : ∀ c rest, c.isDigit = false → decimal (digits (c :: rest)) = none) :
    (signed digits text).any inRange = true ↔
      ∃ sign rest, (sign = [] ∨ sign = ['+']) ∧ text = sign ++ rest ∧
        ∃ n, decimal (digits rest) = some n ∧ 0 < n ∧ n ≤ 65535 := by
  unfold signed
  split
  next rest =>
    constructor
    · cases decimal (digits rest) <;> simp [inRange]
    · rintro ⟨sign, body, rfl | rfl, htext, n, hn, -⟩
      · cases htext
        simp [hstop] at hn
      · cases htext
  next rest =>
    rw [any_inRange]
    constructor
    · exact fun h => ⟨['+'], rest, .inr rfl, rfl, h⟩
    · rintro ⟨sign, body, rfl | rfl, htext, n, hn, h⟩
      · cases htext
        simp [hstop] at hn
      · cases htext
        exact ⟨n, hn, h⟩
  next hplus =>
    rw [any_inRange]
    constructor
    · exact fun h => ⟨[], text, .inl rfl, rfl, h⟩
    · rintro ⟨sign, body, rfl | rfl, rfl, h⟩
      · exact h
      · exact absurd rfl (hplus body)

theorem atoi_port {s : String} : (atoi s).any inRange = true ↔ PortThen s.toList [] := by
  have hatoi : atoi s = signed id s.toList := rfl
  have hstop : ∀ c rest, c.isDigit = false → decimal (id (c :: rest)) = none := by
    intro c rest hc
    simp [decimal, hc]
  rw [hatoi, signed_port hstop]
  constructor
  · rintro ⟨sign, rest, hsign, htext, n, h⟩
    exact ⟨sign, rest, n, hsign, by simpa using htext, h⟩
  · rintro ⟨sign, rest, n, hsign, htext, h⟩
    exact ⟨sign, rest, hsign, by simpa using htext, n, h⟩

theorem parseInt_port {s : String} :
    (parseInt s).any inRange = true ↔ StartsWithPort (s.toList.dropWhile isWhiteSpace) := by
  have hstop : ∀ c rest, c.isDigit = false →
      decimal ((c :: rest).takeWhile Char.isDigit) = none := by
    intro c rest hc
    simp [decimal, hc]
  rw [parseInt, signed_port hstop]
  constructor
  · rintro ⟨sign, rest, hsign, htext, n, h⟩
    refine ⟨rest.dropWhile Char.isDigit, ⟨sign, _, n, hsign, ?_, h⟩, ?_⟩
    · rw [htext, takeWhile_append_dropWhile]
    · intro c hc
      simpa [hc] using head?_dropWhile_not Char.isDigit rest
  · rintro ⟨rest, ⟨sign, digits, n, hsign, htext, hn, h⟩, hrest⟩
    refine ⟨sign, digits ++ rest, hsign, htext, n, ?_, h⟩
    have htake : rest.takeWhile Char.isDigit = [] := by
      cases rest with
      | nil => rfl
      | cons c => simp [hrest c rfl]
    rw [takeWhile_append_of_pos (decimal_digits hn).2, htake, append_nil, hn]

/-! ## The two scans -/

def ReadsPort : Option Scalar → Prop
  | some (.number (some value) _) => value.den = 1 ∧ 0 < value.num ∧ value.num ≤ 65535
  | some (.str text) => StartsWithPort ((trim text).toList.dropWhile isWhiteSpace)
  | _ => False

theorem usableDefault_iff {raw : Option Scalar} : usableDefault raw = true ↔ ReadsPort raw := by
  cases raw with
  | none => exact iff_of_false (by decide +kernel) id
  | some raw =>
    cases raw with
    | null => exact iff_of_false (by decide +kernel) id
    | bool value =>
      have htext : ∀ b : Bool,
          ¬ (parseInt (trim (if b then "true" else "false"))).any inRange = true := by
        decide +kernel
      exact iff_of_false (htext value) id
    | number value =>
      cases value with
      | none => exact iff_of_false Bool.false_ne_true id
      | some => simp [usableDefault, ReadsPort, inRange]
    | str =>
      unfold usableDefault
      exact parseInt_port

/-- The scan goes past the entry: it has no name, or the name is a text other than `HTTP_PORT`. -/
def Passed : Prop := ∀ name, e.bind (·.name) = some name →
    name = .null ∨ ∃ text, name = .str text ∧ trim text ≠ envHTTPPort

/-- The entry is the first that the run host takes for `HTTP_PORT`. -/
def FirstPort (entries : List (Option EnvEntry)) (e : Option EnvEntry) : Prop :=
  ∃ before after, entries = before ++ e :: after ∧ (∀ x ∈ before, Passed x) ∧
    ∃ text, e.bind (·.name) = some (.str text) ∧ trim text = envHTTPPort

/-- The orchestrator takes the entry for `HTTP_PORT`, with a port as its default. -/
def DeclaresPort : Prop := trimSpace (decodeEntry e).name = envHTTPPort ∧
    ∃ text, (decodeEntry e).default = some text ∧ PortThen (trimSpace text).toList []

theorem firstPort_cons {e x : Option EnvEntry} {rest : List (Option EnvEntry)} :
    FirstPort (e :: rest) x ↔
      (x = e ∧ ∃ text, e.bind (·.name) = some (.str text) ∧ trim text = envHTTPPort) ∨
        Passed e ∧ FirstPort rest x := by
  constructor
  · rintro ⟨before, after, heq, hbefore, hx⟩
    cases before with
    | nil =>
      cases heq
      exact .inl ⟨rfl, hx⟩
    | cons y before =>
      cases heq
      exact .inr ⟨hbefore e (.head _), before, after, rfl, fun z hz => hbefore z (.tail _ hz), hx⟩
  · rintro (⟨rfl, hx⟩ | ⟨he, before, after, rfl, hbefore, hx⟩)
    · exact ⟨[], rest, rfl, by simp, hx⟩
    · exact ⟨e :: before, after, rfl, forall_mem_cons.2 ⟨he, hbefore⟩, hx⟩

theorem scanEnv_eq_true_iff (entries : List (Option EnvEntry)) : scanEnv entries = some true ↔
      ∃ e, FirstPort entries e ∧ ReadsPort (e.bind (·.default)) := by
  induction entries with
  | nil => simp [scanEnv, FirstPort]
  | cons e rest ih =>
    simp only [firstPort_cons, Passed]
    unfold scanEnv
    cases hname : e.bind (·.name) with
    | none => simpa using ih
    | some name =>
      cases name with
      | null => simpa using ih
      | bool => simp
      | number => simp
      | str text =>
        by_cases hport : trim text = envHTTPPort
        · simp [hport, usableDefault_iff]
        · simpa [hport] using ih

theorem exposable_iff (entries : List (Option EnvEntry)) :
    (resolveRuntimeEnv (some (entries.map decodeEntry))).exposable = true ↔
      ∃ e ∈ entries, DeclaresPort e := by
  have hdeclared : ∀ e, (declaredPort e).isSome = true ↔
      ∃ text, e.default = some text ∧ PortThen (trimSpace text).toList [] := by
    intro e
    unfold declaredPort
    simp only [← atoi_port]
    cases e.default with
    | none => simp
    | some text =>
      cases hp : atoi (trimSpace text) with
      | none => simp [hp]
      | some => simp [hp, inRange]
  set ports := ((entries.map decodeEntry).filter (trimSpace ·.name = envHTTPPort)).filterMap
    declaredPort with hports
  have hexposable : (resolveRuntimeEnv (some (entries.map decodeEntry))).exposable = true ↔
      ports ≠ [] := by
    unfold resolveRuntimeEnv
    dsimp only
    rw [ne_eq, ← getLast?_eq_none_iff]
    cases ports.getLast? <;> simp
  rw [hexposable, ne_eq, eq_nil_iff_forall_not_mem]
  simp [hports, DeclaresPort, ← hdeclared, isSome_iff_exists]
  grind

def Document.entries : List (Option EnvEntry) := (doc.bind (·.env)).getD []

open Document

/-- **Where the run host and the orchestrator agree**, for a document that both parse: the port that
the first `HTTP_PORT` starts with is declared in full by some `HTTP_PORT`, and a port that is
declared anywhere is one the first `HTTP_PORT` starts with. -/
theorem networked_agree_iff : (isExposable (some doc) = some true ↔
        (resolveRuntimeEnv (some (decodeEnv doc))).exposable = true) ↔
      (∀ e, FirstPort (Document.entries doc) e → ReadsPort (e.bind (·.default)) →
        ∃ x ∈ Document.entries doc, DeclaresPort x) ∧ ∀ x ∈ Document.entries doc, DeclaresPort x →
        ∃ e, FirstPort (Document.entries doc) e ∧ ReadsPort (e.bind (·.default)) := by
  have hhost := scanEnv_eq_true_iff (entries doc)
  have horchestrator := exposable_iff (entries doc)
  change (scanEnv (entries doc) = some true ↔ _) ↔ _
  rw [show decodeEnv doc = (entries doc).map decodeEntry from rfl]
  grind

/-- A document that declares `HTTP_PORT` with these defaults. -/
def portDocument (defaults : List (Option Scalar)) : Option Document :=
  some ⟨some (defaults.map fun d => some ⟨some (.str "HTTP_PORT"), d⟩)⟩

/-- **Where they disagree**: a second declaration counts for the orchestrator only, a protocol
behind the port for the run host only. -/
theorem networked_disagree :
    (isExposable (some (portDocument [none, some (.str "8080")])) = some false ∧
      (resolveRuntimeEnv (some (decodeEnv (portDocument [none, some (.str "8080")])))).exposable =
        true) ∧
    (isExposable (some (portDocument [some (.str "8080/tcp")])) = some true ∧
      (resolveRuntimeEnv (some (decodeEnv (portDocument [some (.str "8080/tcp")])))).exposable =
        false) := by
  decide +kernel

end Octo.RunHost
