import Mathlib.Data.List.Nodup
import Mathlib.Data.List.Pairwise
import RunNginx.Config.Statements
import RunNginx.Lib.Updates

/-!
# The order of directives in a location

A location is read one directive after the other.  A directive edits one field of what is
read, so that the order of two directives can only matter where both edit the same one.
The directives of distinct names that share a field are those about the handler: some make
a handler, whatever was there, and the others change the handler that is there.

`location_order` is the condition under which a body of directives of distinct names means
the same in every order: none of its directives changes what another one makes.
-/

namespace RunNginx
namespace ConfigParser

open ByteString Parse Updates

/-! ### Fields of a location -/

inductive LocationField
  | handler
  | root
  | index
  | tryFiles
  | addHeaders
  | clientMaxBodySize
  | gzip
  | limitReq
  | rewrites
  | authBasicRealm
  | authBasicFile
deriving DecidableEq

/-- A `return` is also a handler, so the two are one field. -/
def LocationField.Value : LocationField → Type
  | .handler => LocationHandler × Option ReturnDirective
  | .root => Option Bytes
  | .index => Option (List Bytes)
  | .tryFiles => Option (List TryFilesEntry)
  | .addHeaders => List (Bytes × Bytes)
  | .clientMaxBodySize => Option Nat
  | .gzip => Option Bool
  | .limitReq => Option LimitReqRef
  | .rewrites => List RewriteRule
  | .authBasicRealm => Option Bytes
  | .authBasicFile => Option Bytes

def LocationReader.read (st : LocationReader) : (f : LocationField) → f.Value
  | .handler => (st.handler, st.returnDirective)
  | .root => st.root
  | .index => st.index
  | .tryFiles => st.tryFiles
  | .addHeaders => st.addHeaders
  | .clientMaxBodySize => st.clientMaxBodySize
  | .gzip => st.gzip
  | .limitReq => st.limitReq
  | .rewrites => st.rewrites
  | .authBasicRealm => st.authBasicRealm
  | .authBasicFile => st.authBasicFile

def LocationReader.write (st : LocationReader) : (f : LocationField) → f.Value → LocationReader
  | .handler, v => { st with handler := v.1, returnDirective := v.2 }
  | .root, v => { st with root := v }
  | .index, v => { st with index := v }
  | .tryFiles, v => { st with tryFiles := v }
  | .addHeaders, v => { st with addHeaders := v }
  | .clientMaxBodySize, v => { st with clientMaxBodySize := v }
  | .gzip, v => { st with gzip := v }
  | .limitReq, v => { st with limitReq := v }
  | .rewrites, v => { st with rewrites := v }
  | .authBasicRealm, v => { st with authBasicRealm := v }
  | .authBasicFile, v => { st with authBasicFile := v }

theorem LocationReader.read_write_self
    (st : LocationReader) (f : LocationField) (v : f.Value) :
    (st.write f v).read f = v := by
  cases f <;> rfl

theorem LocationReader.read_write_other
    (st : LocationReader) {f j : LocationField} (v : f.Value)
    (h : j ≠ f) :
    (st.write f v).read j = st.read j := by
  cases f <;> cases j <;> first | rfl | exact absurd rfl h

theorem LocationReader.read_injective : Function.Injective LocationReader.read := by
  intro st st' h
  have hf := congrFun h
  obtain ⟨_, _, _, _, _, _, _, _, _, _, _, _⟩ := st
  obtain ⟨_, _, _, _, _, _, _, _, _, _, _, _⟩ := st'
  rw [LocationReader.mk.injEq]
  exact ⟨congrArg Prod.fst (hf .handler), hf .root, hf .index, hf .tryFiles, hf .addHeaders,
    hf .clientMaxBodySize, congrArg Prod.snd (hf .handler), hf .gzip, hf .limitReq,
    hf .rewrites, hf .authBasicRealm, hf .authBasicFile⟩

/-! ### Directives and the fields they edit -/

section Editing

variable {σ ι α : Type} {V : ι → Type} {read : σ → (i : ι) → V i} {i : ι}

theorem edits_oneArg
    {g : Bytes → σ → Except ConfigError σ}
    (h : ∀ v, Edits read i fun st => (g v st).toOption) (args : List Bytes) :
    Edits read i (oneArg g args) := by
  match args with
  | [] => exact edits_none
  | [v] => exact h v
  | _ :: _ :: _ => exact edits_none

theorem edits_twoArgs
    {f : Bytes → Bytes → σ → σ}
    (h : ∀ key value, Edits read i fun st => some (f key value st)) (args : List Bytes) :
    Edits read i (twoArgs f args) := by
  match args with
  | [] => exact edits_none
  | [_] => exact edits_none
  | [key, value] => exact h key value
  | _ :: _ :: _ :: _ => exact edits_none

theorem edits_checkedArg
    {check : Bytes → Except ConfigError α} {f : α → σ → σ}
    (h : ∀ a, Edits read i fun st => some (f a st)) (args : List Bytes) :
    Edits read i (checkedArg check f args) := by
  match args with
  | [] => exact edits_none
  | [v] =>
      have hone : checkedArg check f [v] = fun st => (check v).toOption.map fun a => f a st := by
        funext st
        cases hv : check v <;> simp [checkedArg, firstArg, noArgs, hv, Except.toOption]
      rw [hone]
      cases check v with
      | error e => exact edits_none
      | ok a => exact h a
  | v :: w :: args =>
      have hnone : checkedArg check f (v :: w :: args) = fun _ => none := by
        funext st
        cases hv : check v <;> simp [checkedArg, firstArg, noArgs, hv, Except.toOption]
      rw [hnone]
      exact edits_none

theorem edits_valueOfArgs
    {q : List Bytes → Option α} {f : α → σ → σ}
    (h : ∀ a, Edits read i fun st => some (f a st)) (args : List Bytes) :
    Edits read i (valueOfArgs q f args) := by
  unfold valueOfArgs
  cases q args with
  | none => exact edits_none
  | some a => exact h a

end Editing

/-- Change the handler of a location. -/
def setHandler (g : LocationHandler → LocationHandler) (st : LocationReader) : LocationReader :=
  { st with handler := g st.handler }

/-- Change the settings of a proxy, where the handler is one. -/
def mapProxy (m : ProxyConfig → ProxyConfig) : LocationHandler → LocationHandler
  | .proxy pc => .proxy (m pc)
  | h => h

/-- Change the settings of FastCGI, where the handler is one. -/
def mapFastCgi (m : FastCgiConfig → FastCgiConfig) : LocationHandler → LocationHandler
  | .fastCgi fc => .fastCgi (m fc)
  | h => h

theorem onProxy_eq (m : ProxyConfig → ProxyConfig) : onProxy m = setHandler (mapProxy m) := by
  funext st
  unfold onProxy setHandler
  obtain ⟨h, _, _, _, _, _, _, _, _, _, _, _⟩ := st
  cases h <;> rfl

theorem onFastCgi_eq
    (m : FastCgiConfig → FastCgiConfig) :
    onFastCgi m = setHandler (mapFastCgi m) := by
  funext st
  unfold onFastCgi setHandler
  obtain ⟨h, _, _, _, _, _, _, _, _, _, _, _⟩ := st
  cases h <;> rfl

/-- The field each directive of a location edits. -/
def locationFields : List (Bytes × LocationField) :=
  [(ascii "root", .root), (ascii "index", .index), (ascii "try_files", .tryFiles),
    (ascii "proxy_pass", .handler), (ascii "fastcgi_pass", .handler),
    (ascii "fastcgi_param", .handler), (ascii "fastcgi_index", .handler),
    (ascii "fastcgi_read_timeout", .handler), (ascii "proxy_set_header", .handler),
    (ascii "proxy_read_timeout", .handler), (ascii "proxy_buffering", .handler),
    (ascii "proxy_allow_internal", .handler), (ascii "add_header", .addHeaders),
    (ascii "client_max_body_size", .clientMaxBodySize), (ascii "return", .handler),
    (ascii "gzip", .gzip), (ascii "limit_req", .limitReq), (ascii "rewrite", .rewrites),
    (ascii "auth_basic", .authBasicRealm), (ascii "auth_basic_user_file", .authBasicFile)]

/-- The directives of a list of shapes edit these fields. -/
def EditFields {σ ι : Type} {V : ι → Type} (read : σ → (i : ι) → V i) (shapes : Shapes σ)
    (fields : List (Bytes × ι)) : Prop :=
  List.Forall₂ (fun s e => s.1 = e.1 ∧ ∀ f, s.2 = some f → ∀ args, Edits read e.2 (f args))
    shapes fields

section EditFields

variable {σ ι : Type} {V : ι → Type} {read : σ → (i : ι) → V i}

theorem editFields_cons
    {name : Bytes} {f : List Bytes → σ → Option σ} {i : ι} {shapes : Shapes σ}
    {fields : List (Bytes × ι)}
    (hf : ∀ args, Edits read i (f args)) (h : EditFields read shapes fields) :
    EditFields read ((name, some f) :: shapes) ((name, i) :: fields) :=
  .cons ⟨rfl, fun _ heq => Option.some.inj heq ▸ hf⟩ h

theorem editFields_nested
    {name : Bytes} {i : ι} {shapes : Shapes σ} {fields : List (Bytes × ι)}
    (h : EditFields read shapes fields) :
    EditFields read ((name, none) :: shapes) ((name, i) :: fields) :=
  .cons ⟨rfl, fun _ heq => nomatch heq⟩ h

/-- A directive of a shape edits the field of its name. -/
theorem EditFields.lookup
    {shapes : Shapes σ} {fields : List (Bytes × ι)} {name : Bytes}
    {s : Option (List Bytes → σ → Option σ)}
    (h : EditFields read shapes fields) (hs : shapes.lookup name = some s) :
    ∃ i, fields.lookup name = some i ∧ ∀ f, s = some f → ∀ args, Edits read i (f args) := by
  induction h with
  | nil => cases hs
  | @cons shape entry shapes fields hentry _ ih =>
      obtain ⟨key, s'⟩ := shape
      obtain ⟨key', i⟩ := entry
      obtain ⟨rfl, hedit⟩ := hentry
      by_cases hname : name = key
      · subst hname
        rw [List.lookup_cons_self] at hs ⊢
        cases hs
        exact ⟨i, rfl, hedit⟩
      · rw [List.lookup_cons, beq_false_of_ne hname] at hs ⊢
        exact ih hs

end EditFields

theorem edits_check
    {σ ι α : Type} {V : ι → Type} {read : σ → (i : ι) → V i} {i : ι} {check : Except ConfigError α}
    {f : α → σ → σ}
    (h : ∀ a, Edits read i fun st => some (f a st)) :
    Edits read i fun st => (do return f (← check) st : Except ConfigError σ).toOption := by
  cases check with
  | error e => exact edits_none
  | ok a => exact h a

/-- A change of one field of a location. -/
theorem edits_location
    {f : LocationField} {u : LocationReader → LocationReader} (φ : f.Value → f.Value)
    (hu : ∀ st : LocationReader, u st = st.write f (φ (st.read f))) :
    Edits LocationReader.read f fun st => some (u st) := by
  refine edits_some φ (fun st => ?_) fun st j hj => ?_
  · rw [hu, st.read_write_self]
  · rw [hu, st.read_write_other _ hj]

theorem edits_setHandler
    (g : LocationHandler → LocationHandler) :
    Edits LocationReader.read .handler fun st => some (setHandler g st) :=
  edits_location (f := .handler) (fun v => (g v.1, v.2)) fun _ => rfl

theorem edits_onProxy
    (m : ProxyConfig → ProxyConfig) :
    Edits LocationReader.read .handler fun st => some (onProxy m st) := by
  rw [onProxy_eq]
  exact edits_setHandler _

theorem edits_onFastCgi
    (m : FastCgiConfig → FastCgiConfig) :
    Edits LocationReader.read .handler fun st => some (onFastCgi m st) := by
  rw [onFastCgi_eq]
  exact edits_setHandler _

theorem locationShapes_edit
    (lib : Libraries) :
    EditFields LocationReader.read (locationShapes lib) locationFields := by
  refine editFields_cons (edits_oneArg fun v => edits_check fun a =>
      edits_location (f := .root) (fun _ => some a) fun _ => rfl) ?_
  refine editFields_cons (fun args =>
      edits_location (f := .index) (fun _ => some args) fun _ => rfl) ?_
  refine editFields_cons (fun args =>
      edits_location (f := .tryFiles) (fun _ => some (parseTryFiles args)) fun _ => rfl) ?_
  refine editFields_cons (edits_oneArg fun v => edits_check fun a =>
      edits_setHandler fun _ => .proxy a) ?_
  refine editFields_cons (edits_oneArg fun v => edits_check fun a =>
      edits_setHandler fun _ => .fastCgi ⟨a, [], none, 60, 5⟩) ?_
  refine editFields_cons (edits_twoArgs fun _ _ => edits_onFastCgi _) ?_
  refine editFields_cons (edits_oneArg fun _ => edits_onFastCgi _) ?_
  refine editFields_cons (edits_oneArg fun _ => edits_onFastCgi _) ?_
  refine editFields_cons (edits_twoArgs fun _ _ => edits_onProxy _) ?_
  refine editFields_cons (edits_oneArg fun _ => edits_onProxy _) ?_
  refine editFields_cons (edits_oneArg fun _ => edits_onProxy _) ?_
  refine editFields_cons (edits_oneArg fun _ => edits_onProxy _) ?_
  refine editFields_cons (edits_valueOfArgs fun h =>
      edits_location (f := .addHeaders) (List.append · [h]) fun _ => rfl) ?_
  refine editFields_cons (edits_checkedArg fun n =>
      edits_location (f := .clientMaxBodySize) (fun _ => some n) fun _ => rfl) ?_
  refine editFields_cons (edits_valueOfArgs fun rd =>
      edits_location (f := .handler) (fun _ => (.return rd, some rd)) fun _ => rfl) ?_
  refine editFields_cons (edits_oneArg fun v =>
      edits_location (f := .gzip) (fun _ => some (v == ascii "on")) fun _ => rfl) ?_
  refine editFields_cons (fun args =>
      edits_location (f := .limitReq) (fun _ => parseLimitReq args) fun _ => rfl) ?_
  refine editFields_cons (edits_valueOfArgs fun rule =>
      edits_location (f := .rewrites) (List.append · [rule]) fun _ => rfl) ?_
  refine editFields_cons (edits_oneArg fun realm => ?_) ?_
  · by_cases hoff : realm = ascii "off"
    · simp only [if_pos hoff]
      exact edits_location (f := .authBasicRealm) (fun v => v) fun _ => rfl
    · simp only [if_neg hoff]
      exact edits_location (f := .authBasicRealm) (fun _ => some realm) fun _ => rfl
  refine editFields_cons (edits_oneArg fun file =>
      edits_location (f := .authBasicFile) (fun _ => some file) fun _ => rfl) ?_
  exact .nil

/-! ### The handler of a location -/

/-- The seconds of a timeout. -/
def secondsOf (v : Bytes) : Nat :=
  (Decimal.parseUnsigned Decimal.u64Bound (trimSeconds v)).getD 60

/-- The directives that change the settings of a proxy. -/
def proxyModifiers : List (Bytes × (List Bytes → Option (ProxyConfig → ProxyConfig))) :=
  [(ascii "proxy_set_header", firstArg fun key => firstArg fun val => noArgs <| some fun pc =>
      { pc with setHeaders := pc.setHeaders ++ [(key, val)] }),
    (ascii "proxy_read_timeout", firstArg fun v => noArgs <| some fun pc =>
      { pc with readTimeout := secondsOf v }),
    (ascii "proxy_buffering", firstArg fun v => noArgs <| some fun pc =>
      { pc with buffering := v == ascii "on" }),
    (ascii "proxy_allow_internal", firstArg fun v => noArgs <| some fun pc =>
      { pc with allowInternal := v == ascii "on" })]

/-- The directives that change the settings of FastCGI. -/
def fastCgiModifiers : List (Bytes × (List Bytes → Option (FastCgiConfig → FastCgiConfig))) :=
  [(ascii "fastcgi_param", firstArg fun key => firstArg fun val => noArgs <| some fun fc =>
      { fc with params := fc.params ++ [(key, val)] }),
    (ascii "fastcgi_index", firstArg fun idx => noArgs <| some fun fc =>
      { fc with index := some idx }),
    (ascii "fastcgi_read_timeout", firstArg fun v => noArgs <| some fun fc =>
      { fc with readTimeout := secondsOf v })]

/-- The directives that make a handler, whatever was there. -/
def handlerMakers (lib : Libraries) : List (Bytes × (List Bytes → Option LocationHandler)) :=
  [(ascii "proxy_pass", firstArg fun url => noArgs <|
      (parseProxyPass lib url).toOption.map .proxy),
    (ascii "fastcgi_pass", firstArg fun s => noArgs <|
      (parseFastcgiUpstream s).toOption.map fun upstream =>
        .fastCgi ⟨upstream, [], none, 60, 5⟩),
    (ascii "return", fun args => (returnOf args).map .return)]

/-- Put a handler in place; a `return` is also kept as such. -/
def makeHandler (h : LocationHandler) (st : LocationReader) : LocationReader :=
  match h with
  | .return rd => { st with returnDirective := some rd, handler := h }
  | _ => { st with handler := h }

theorem one_of_firstArg
    {α : Type} {F : Bytes → α} {args : List Bytes} {a : α}
    (h : firstArg (fun v => noArgs (some (F v))) args = some a) :
    ∃ v, args = [v] ∧ a = F v := by
  match args, h with
  | [v], h => exact ⟨v, rfl, (Option.some.inj h).symm⟩

theorem two_of_firstArg
    {α : Type} {F : Bytes → Bytes → α} {args : List Bytes} {a : α}
    (h : firstArg (fun v => firstArg fun w => noArgs (some (F v w))) args = some a) :
    ∃ v w, args = [v, w] ∧ a = F v w := by
  match args, h with
  | [v, w], h => exact ⟨v, w, rfl, (Option.some.inj h).symm⟩

/-- Two modifiers whose changes may be swapped. -/
def Swap {α : Type} (e e' : Bytes × (List Bytes → Option (α → α))) : Prop :=
  ∀ args args' m m', e.2 args = some m → e'.2 args' = some m' → ∀ a, m (m' a) = m' (m a)

instance {α : Type} : Std.Symm (@Swap α) where
  symm _ _ h := fun args args' m m' hm hm' a => (h args' args m' m hm' hm a).symm

theorem proxyModifiers_swap : proxyModifiers.Pairwise Swap := by
  simp only [proxyModifiers, List.pairwise_cons, List.forall_mem_cons]
  refine ⟨⟨?_, ?_, ?_, by simp⟩, ⟨?_, ?_, by simp⟩, ⟨?_, by simp⟩, by simp⟩
  all_goals
    intro args args' m m' hm hm' pc
    obtain ⟨w, -, rfl⟩ := one_of_firstArg hm'
    first
    | obtain ⟨v, -, rfl⟩ := one_of_firstArg hm
      rfl
    | obtain ⟨k, v, -, rfl⟩ := two_of_firstArg hm
      rfl

theorem fastCgiModifiers_swap : fastCgiModifiers.Pairwise Swap := by
  simp only [fastCgiModifiers, List.pairwise_cons, List.forall_mem_cons]
  refine ⟨⟨?_, ?_, by simp⟩, ⟨?_, by simp⟩, by simp⟩
  all_goals
    intro args args' m m' hm hm' fc
    obtain ⟨w, -, rfl⟩ := one_of_firstArg hm'
    first
    | obtain ⟨v, -, rfl⟩ := one_of_firstArg hm
      rfl
    | obtain ⟨k, v, -, rfl⟩ := two_of_firstArg hm
      rfl

/-- The directives that change a handler which is there. -/
def handlerModifiers : List (Bytes × (List Bytes → Option (LocationHandler → LocationHandler))) :=
  proxyModifiers.map (fun e => (e.1, fun args => (e.2 args).map mapProxy)) ++
    fastCgiModifiers.map fun e => (e.1, fun args => (e.2 args).map mapFastCgi)

theorem mapProxy_mapFastCgi
    (m : ProxyConfig → ProxyConfig) (m' : FastCgiConfig → FastCgiConfig) (h : LocationHandler) :
    mapProxy m (mapFastCgi m' h) = mapFastCgi m' (mapProxy m h) := by
  cases h <;> rfl

theorem handlerModifiers_swap : handlerModifiers.Pairwise Swap := by
  refine List.pairwise_append.mpr ⟨?_, ?_, ?_⟩
  · refine List.pairwise_map.mpr (proxyModifiers_swap.imp fun {e e'} hswap => ?_)
    intro args args' g g' hg hg' h
    obtain ⟨m, hm, rfl⟩ := Option.map_eq_some_iff.mp hg
    obtain ⟨m', hm', rfl⟩ := Option.map_eq_some_iff.mp hg'
    cases h with
    | proxy pc => exact congrArg LocationHandler.proxy (hswap args args' m m' hm hm' pc)
    | static => rfl
    | fastCgi fc => rfl
    | «return» rd => rfl
    | upstreamGroup name => rfl
  · refine List.pairwise_map.mpr (fastCgiModifiers_swap.imp fun {e e'} hswap => ?_)
    intro args args' g g' hg hg' h
    obtain ⟨m, hm, rfl⟩ := Option.map_eq_some_iff.mp hg
    obtain ⟨m', hm', rfl⟩ := Option.map_eq_some_iff.mp hg'
    cases h with
    | fastCgi fc => exact congrArg LocationHandler.fastCgi (hswap args args' m m' hm hm' fc)
    | static => rfl
    | proxy pc => rfl
    | «return» rd => rfl
    | upstreamGroup name => rfl
  · intro e he e' he' args args' g g' hg hg' h
    obtain ⟨p, -, rfl⟩ := List.mem_map.mp he
    obtain ⟨p', -, rfl⟩ := List.mem_map.mp he'
    obtain ⟨m, -, rfl⟩ := Option.map_eq_some_iff.mp hg
    obtain ⟨m', -, rfl⟩ := Option.map_eq_some_iff.mp hg'
    exact mapProxy_mapFastCgi m m' h

section Changes

variable {σ α : Type}

theorem oneArg_ok
    {u : Bytes → σ → σ} {F : Bytes → α} {k : α → σ → σ}
    (h : ∀ v st, u v st = k (F v) st) (args : List Bytes) (st : σ) :
    oneArg (fun v st => .ok (u v st)) args st =
      (firstArg (fun v => noArgs (some (F v))) args).map fun a => k a st := by
  match args with
  | [] => rfl
  | [v] => exact congrArg some (h v st)
  | _ :: _ :: _ => rfl

theorem twoArgs_eq
    {u : Bytes → Bytes → σ → σ} {F : Bytes → Bytes → α} {k : α → σ → σ}
    (h : ∀ v w st, u v w st = k (F v w) st) (args : List Bytes) (st : σ) :
    twoArgs u args st =
      (firstArg (fun v => firstArg fun w => noArgs (some (F v w))) args).map fun a => k a st := by
  match args with
  | [] => rfl
  | [_] => rfl
  | [v, w] => exact congrArg some (h v w st)
  | _ :: _ :: _ :: _ => rfl

end Changes

/-- A modifier changes the handler. -/
theorem change_modifier
    {lib : Libraries} {d : Directive}
    {e : Bytes × (List Bytes → Option (LocationHandler → LocationHandler))}
    (he : e ∈ handlerModifiers) (hname : d.name = e.1) (hblock : d.block = none)
    (st : LocationReader) :
    change (locationShapes lib) d st = (e.2 d.args).map fun g => setHandler g st := by
  have hproxy : ∀ m : ProxyConfig → ProxyConfig, onProxy m = setHandler (mapProxy m) := onProxy_eq
  have hfcgi : ∀ m : FastCgiConfig → FastCgiConfig, onFastCgi m = setHandler (mapFastCgi m) :=
    onFastCgi_eq
  have hmap : ∀ (x : Option (ProxyConfig → ProxyConfig)),
      (x.map mapProxy).map (fun g => setHandler g st) = x.map fun m => onProxy m st := by
    intro x
    cases x <;> simp [hproxy]
  have hmap' : ∀ (x : Option (FastCgiConfig → FastCgiConfig)),
      (x.map mapFastCgi).map (fun g => setHandler g st) = x.map fun m => onFastCgi m st := by
    intro x
    cases x <;> simp [hfcgi]
  obtain ⟨name, args, block⟩ := d
  obtain rfl : block = none := hblock
  obtain rfl : name = e.1 := hname
  rcases List.mem_append.mp he with he | he
  · obtain ⟨p, hp, rfl⟩ := List.mem_map.mp he
    rw [hmap]
    simp only [proxyModifiers, List.mem_cons, List.not_mem_nil, or_false] at hp
    rcases hp with rfl | rfl | rfl | rfl
    · exact twoArgs_eq (k := onProxy) (fun _ _ _ => rfl) args st
    · exact oneArg_ok (k := onProxy) (fun _ _ => rfl) args st
    · exact oneArg_ok (k := onProxy) (fun _ _ => rfl) args st
    · exact oneArg_ok (k := onProxy) (fun _ _ => rfl) args st
  · obtain ⟨p, hp, rfl⟩ := List.mem_map.mp he
    rw [hmap']
    simp only [fastCgiModifiers, List.mem_cons, List.not_mem_nil, or_false] at hp
    rcases hp with rfl | rfl | rfl
    · exact twoArgs_eq (k := onFastCgi) (fun _ _ _ => rfl) args st
    · exact oneArg_ok (k := onFastCgi) (fun _ _ => rfl) args st
    · exact oneArg_ok (k := onFastCgi) (fun _ _ => rfl) args st

/-- A maker puts its handler in place. -/
theorem change_maker
    {lib : Libraries} {d : Directive} {e : Bytes × (List Bytes → Option LocationHandler)}
    (he : e ∈ handlerMakers lib) (hname : d.name = e.1) (hblock : d.block = none)
    (st : LocationReader) :
    change (locationShapes lib) d st = (e.2 d.args).map fun h => makeHandler h st := by
  obtain ⟨name, args, block⟩ := d
  obtain rfl : block = none := hblock
  obtain rfl : name = e.1 := hname
  simp only [handlerMakers, List.mem_cons, List.not_mem_nil, or_false] at he
  rcases he with rfl | rfl | rfl
  · match args with
    | [] => rfl
    | [url] =>
        change ((parseProxyPass lib url).bind fun pc =>
          .ok { st with handler := .proxy pc } : Except ConfigError LocationReader).toOption = _
        simp only [firstArg, noArgs]
        cases parseProxyPass lib url <;> rfl
    | _ :: _ :: _ => rfl
  · match args with
    | [] => rfl
    | [s] =>
        change ((parseFastcgiUpstream s).bind fun upstream =>
          .ok { st with handler := .fastCgi ⟨upstream, [], none, 60, 5⟩ } :
            Except ConfigError LocationReader).toOption = _
        simp only [firstArg, noArgs]
        cases parseFastcgiUpstream s <;> rfl
    | _ :: _ :: _ => rfl
  · change (returnOf args).map _ = ((returnOf args).map _).map _
    cases returnOf args <;> rfl

/-! ### Conflicts in a location -/

/-- The directive changes the settings that a `proxy_pass` starts with. -/
def ProxySetting (e : Directive) : Prop :=
  e.name = ascii "proxy_set_header" ∨
    (e.name = ascii "proxy_read_timeout" ∧ e.args.map secondsOf ≠ [60]) ∨
    (e.name = ascii "proxy_buffering" ∧ e.args ≠ [ascii "on"]) ∨
    (e.name = ascii "proxy_allow_internal" ∧ e.args = [ascii "on"])

/-- The directive changes the settings that a `fastcgi_pass` starts with. -/
def FastCgiSetting (e : Directive) : Prop :=
  e.name = ascii "fastcgi_param" ∨ e.name = ascii "fastcgi_index" ∨
    (e.name = ascii "fastcgi_read_timeout" ∧ e.args.map secondsOf ≠ [60])

/-- The second directive is lost where it stands before the first. -/
def LocationConflict (d e : Directive) : Prop :=
  (d.name = ascii "proxy_pass" ∧ ProxySetting e) ∨
    (d.name = ascii "fastcgi_pass" ∧ FastCgiSetting e)

theorem parseProxyPass_fresh
    {lib : Libraries} {raw : Bytes} {pc : ProxyConfig}
    (h : parseProxyPass lib raw = .ok pc) :
    pc.setHeaders = [] ∧ pc.readTimeout = 60 ∧ pc.buffering = true ∧ pc.allowInternal = false := by
  unfold parseProxyPass at h
  dsimp only at h
  repeat' split at h
  all_goals cases h
  exact ⟨rfl, rfl, rfl, rfl⟩

theorem proxySetting_iff
    {e : Directive} {p : Bytes × (List Bytes → Option (ProxyConfig → ProxyConfig))}
    {m : ProxyConfig → ProxyConfig} {pc : ProxyConfig}
    (hp : p ∈ proxyModifiers) (hname : e.name = p.1) (hm : p.2 e.args = some m)
    (hfresh : pc.setHeaders = [] ∧ pc.readTimeout = 60 ∧ pc.buffering = true ∧
      pc.allowInternal = false) :
    m pc ≠ pc ↔ ProxySetting e := by
  obtain ⟨hheaders, htimeout, hbuffering, hallow⟩ := hfresh
  obtain ⟨upstream, setHeaders, readTimeout, connectTimeout, buffering, http2, allow⟩ := pc
  simp only at hheaders htimeout hbuffering hallow
  subst hheaders htimeout hbuffering hallow
  simp only [proxyModifiers, List.mem_cons, List.not_mem_nil, or_false] at hp
  rcases hp with rfl | rfl | rfl | rfl
  · obtain ⟨key, val, hargs, rfl⟩ := two_of_firstArg hm
    simp [ProxySetting, hname]
  · obtain ⟨v, hargs, rfl⟩ := one_of_firstArg hm
    simp only [ProxySetting, hname, hargs]
    simp +decide
  · obtain ⟨v, hargs, rfl⟩ := one_of_firstArg hm
    simp only [ProxySetting, hname, hargs]
    simp +decide
  · obtain ⟨v, hargs, rfl⟩ := one_of_firstArg hm
    simp only [ProxySetting, hname, hargs]
    simp +decide

theorem fastCgiSetting_iff
    {e : Directive} {p : Bytes × (List Bytes → Option (FastCgiConfig → FastCgiConfig))}
    {m : FastCgiConfig → FastCgiConfig} (upstream : FastCgiUpstream)
    (hp : p ∈ fastCgiModifiers) (hname : e.name = p.1) (hm : p.2 e.args = some m) :
    m ⟨upstream, [], none, 60, 5⟩ ≠ ⟨upstream, [], none, 60, 5⟩ ↔ FastCgiSetting e := by
  simp only [fastCgiModifiers, List.mem_cons, List.not_mem_nil, or_false] at hp
  rcases hp with rfl | rfl | rfl
  · obtain ⟨key, val, hargs, rfl⟩ := two_of_firstArg hm
    simp [FastCgiSetting, hname]
  · obtain ⟨v, hargs, rfl⟩ := one_of_firstArg hm
    simp [FastCgiSetting, hname]
  · obtain ⟨v, hargs, rfl⟩ := one_of_firstArg hm
    simp only [FastCgiSetting, hname, hargs]
    simp +decide

theorem not_proxySetting
    {e : Directive} {p : Bytes × (List Bytes → Option (FastCgiConfig → FastCgiConfig))}
    (hp : p ∈ fastCgiModifiers) (hname : e.name = p.1) :
    ¬ ProxySetting e := by
  simp only [fastCgiModifiers, List.mem_cons, List.not_mem_nil, or_false] at hp
  rcases hp with rfl | rfl | rfl <;> simp only [ProxySetting, hname] <;> simp +decide

theorem not_fastCgiSetting
    {e : Directive} {p : Bytes × (List Bytes → Option (ProxyConfig → ProxyConfig))}
    (hp : p ∈ proxyModifiers) (hname : e.name = p.1) :
    ¬ FastCgiSetting e := by
  simp only [proxyModifiers, List.mem_cons, List.not_mem_nil, or_false] at hp
  rcases hp with rfl | rfl | rfl | rfl <;> simp only [FastCgiSetting, hname] <;>
    simp +decide

/-- A conflict is a modifier that changes what the maker makes. -/
theorem locationConflict_iff
    {lib : Libraries} {d e : Directive} {k : Bytes × (List Bytes → Option LocationHandler)}
    {p : Bytes × (List Bytes → Option (LocationHandler → LocationHandler))}
    {h : LocationHandler} {g : LocationHandler → LocationHandler}
    (hk : k ∈ handlerMakers lib) (hd : d.name = k.1) (hh : k.2 d.args = some h)
    (hp : p ∈ handlerModifiers) (he : e.name = p.1) (hg : p.2 e.args = some g) :
    g h ≠ h ↔ LocationConflict d e := by
  have hfastcgi : ascii "fastcgi_pass" ≠ ascii "proxy_pass" := by decide
  have hreturn : ascii "return" ≠ ascii "proxy_pass" ∧ ascii "return" ≠ ascii "fastcgi_pass" := by
    decide
  simp only [handlerMakers, List.mem_cons, List.not_mem_nil, or_false] at hk
  rcases hk with rfl | rfl | rfl
  · obtain ⟨pc, hpc, rfl⟩ : ∃ pc, (∃ url, parseProxyPass lib url = .ok pc) ∧
        h = LocationHandler.proxy pc := by
      match hargs : d.args, hh with
      | [url], hh =>
          obtain ⟨pc, hpc, rfl⟩ := Option.map_eq_some_iff.mp hh
          exact ⟨pc, ⟨url, EarlyReturn.toOption_eq_some_iff.mp hpc⟩, rfl⟩
    obtain ⟨url, hpc⟩ := hpc
    simp only [LocationConflict, hd, hfastcgi.symm, false_and, or_false, true_and]
    rcases List.mem_append.mp hp with hp | hp
    · obtain ⟨p', hp', rfl⟩ := List.mem_map.mp hp
      obtain ⟨m, hm, rfl⟩ := Option.map_eq_some_iff.mp hg
      rw [← proxySetting_iff hp' he hm (parseProxyPass_fresh hpc)]
      simp [mapProxy]
    · obtain ⟨p', hp', rfl⟩ := List.mem_map.mp hp
      obtain ⟨m, hm, rfl⟩ := Option.map_eq_some_iff.mp hg
      simp [mapFastCgi, not_proxySetting hp' he]
  · obtain ⟨upstream, rfl⟩ : ∃ upstream, h =
        LocationHandler.fastCgi ⟨upstream, [], none, 60, 5⟩ := by
      match hargs : d.args, hh with
      | [s], hh =>
          obtain ⟨upstream, -, rfl⟩ := Option.map_eq_some_iff.mp hh
          exact ⟨upstream, rfl⟩
    simp only [LocationConflict, hd, hfastcgi, false_and, false_or, true_and]
    rcases List.mem_append.mp hp with hp | hp
    · obtain ⟨p', hp', rfl⟩ := List.mem_map.mp hp
      obtain ⟨m, hm, rfl⟩ := Option.map_eq_some_iff.mp hg
      simp [mapProxy, not_fastCgiSetting hp' he]
    · obtain ⟨p', hp', rfl⟩ := List.mem_map.mp hp
      obtain ⟨m, hm, rfl⟩ := Option.map_eq_some_iff.mp hg
      rw [← fastCgiSetting_iff upstream hp' he hm]
      simp [mapFastCgi]
  · obtain ⟨rd, -, rfl⟩ := Option.map_eq_some_iff.mp hh
    simp only [LocationConflict, hd, hreturn.1, hreturn.2, false_and, or_false, iff_false,
      not_not]
    rcases List.mem_append.mp hp with hp | hp
    · obtain ⟨p', hp', rfl⟩ := List.mem_map.mp hp
      obtain ⟨m, -, rfl⟩ := Option.map_eq_some_iff.mp hg
      rfl
    · obtain ⟨p', hp', rfl⟩ := List.mem_map.mp hp
      obtain ⟨m, -, rfl⟩ := Option.map_eq_some_iff.mp hg
      rfl

/-! ### Directives that commute -/

/-- The directives of which a location has one at most. -/
def makerNames : List Bytes :=
  [ascii "proxy_pass", ascii "fastcgi_pass", ascii "return"]

theorem mem_of_lookup
    {α : Type} {l : List (Bytes × α)} {name : Bytes} {a : α}
    (h : l.lookup name = some a) :
    (name, a) ∈ l := by
  obtain ⟨l₁, l₂, rfl, -⟩ := List.lookup_eq_some_iff.mp h
  simp

/-- Where two directives edit the same field, it is the handler, or they have one name. -/
theorem locationFields_inj :
    ∀ a ∈ locationFields, ∀ b ∈ locationFields, a.2 = b.2 → a.2 = .handler ∨ a.1 = b.1 := by
  decide

theorem handler_names
    (lib : Libraries) :
    ∀ a ∈ locationFields, a.2 = .handler →
      a.1 ∈ (handlerMakers lib).map Prod.fst ∨ a.1 ∈ handlerModifiers.map Prod.fst := by
  intro a ha hfield
  have : ∀ a ∈ locationFields, a.2 = .handler → a.1 ∈ makerNames ∨
      a.1 ∈ proxyModifiers.map Prod.fst ++ fastCgiModifiers.map Prod.fst := by
    decide
  simpa [handlerMakers, makerNames, handlerModifiers, List.map_map, Function.comp_def] using
    this a ha hfield

theorem steady_change
    {σ ι : Type} {V : ι → Type} {read : σ → (i : ι) → V i} {shapes : Shapes σ}
    {fields : List (Bytes × ι)}
    (h : EditFields read shapes fields) (d : Directive) :
    Steady (change shapes d) := by
  unfold change
  cases hshape : shapes.lookup d.name with
  | none => exact .inr fun _ => rfl
  | some s =>
      obtain ⟨i, -, hedits⟩ := h.lookup hshape
      cases s with
      | none => exact .inl fun _ => rfl
      | some f =>
          cases d.block with
          | none => exact (hedits f rfl d.args).steady
          | some inner => exact .inl fun _ => rfl

theorem commute_of_unknown
    {σ : Type} {shapes : Shapes σ} {d : Directive}
    (h : shapes.lookup d.name = none) (c : σ → Option σ) (s : σ) :
    (change shapes d s).bind c = (c s).bind (change shapes d) := by
  have hd : change shapes d = some := by
    funext s
    simp [change, h]
  rw [hd]
  simp

section Location

variable {lib : Libraries}

/-- What an accepted directive about the handler does. -/
theorem handler_cases
    {d : Directive}
    (hfield : (d.name, LocationField.handler) ∈ locationFields) (hblock : d.block = none)
    (hd : change (locationShapes lib) d .initial ≠ none) :
    (∃ k h, k ∈ handlerMakers lib ∧ d.name = k.1 ∧ k.2 d.args = some h ∧
        ∀ st, change (locationShapes lib) d st = some (makeHandler h st)) ∨
      ∃ p g, p ∈ handlerModifiers ∧ d.name = p.1 ∧ p.2 d.args = some g ∧
        ∀ st, change (locationShapes lib) d st = some (setHandler g st) := by
  rcases handler_names lib _ hfield rfl with hname | hname
  · obtain ⟨k, hk, hname⟩ := List.mem_map.mp hname
    refine .inl ?_
    cases hh : k.2 d.args with
    | none =>
        rw [change_maker hk hname.symm hblock, hh] at hd
        exact absurd rfl hd
    | some h =>
        refine ⟨k, h, hk, hname.symm, hh, fun st => ?_⟩
        rw [change_maker hk hname.symm hblock, hh]
        rfl
  · obtain ⟨p, hp, hname⟩ := List.mem_map.mp hname
    refine .inr ?_
    cases hg : p.2 d.args with
    | none =>
        rw [change_modifier hp hname.symm hblock, hg] at hd
        exact absurd rfl hd
    | some g =>
        refine ⟨p, g, hp, hname.symm, hg, fun st => ?_⟩
        rw [change_modifier hp hname.symm hblock, hg]
        rfl

theorem makeHandler_setHandler
    (h : LocationHandler) (g : LocationHandler → LocationHandler) (st : LocationReader) :
    makeHandler h (setHandler g st) = makeHandler h st := by
  cases h <;> rfl

theorem setHandler_makeHandler
    {h : LocationHandler} {g : LocationHandler → LocationHandler}
    (hg : g h = h) (st : LocationReader) :
    setHandler g (makeHandler h st) = makeHandler h st := by
  cases h <;> simp [setHandler, makeHandler, hg]

/-- An accepted directive that is known has no block. -/
theorem block_of_accepted
    {σ : Type} {shapes : Shapes σ} {d : Directive} {s : Option (List Bytes → σ → Option σ)} {st : σ}
    (hshape : shapes.lookup d.name = some s) (hd : change shapes d st ≠ none) :
    d.block = none ∧ s ≠ none := by
  unfold change at hd
  rw [hshape] at hd
  cases s with
  | none => exact absurd rfl hd
  | some f =>
      cases hblock : d.block with
      | none => exact ⟨rfl, by simp⟩
      | some inner =>
          rw [hblock] at hd
          exact absurd rfl hd

/-- Two directives of different names commute, unless one makes what the other modifies. -/
theorem location_commute
    {d e : Directive}
    (hname : d.name ≠ e.name)
    (hmakers : d.name ∈ makerNames → e.name ∉ makerNames)
    (hd : change (locationShapes lib) d .initial ≠ none)
    (he : change (locationShapes lib) e .initial ≠ none)
    (hde : ¬ LocationConflict d e) (hed : ¬ LocationConflict e d) :
    Commute (change (locationShapes lib)) d e := by
  intro st
  cases hdshape : (locationShapes lib).lookup d.name with
  | none => exact commute_of_unknown hdshape _ st
  | some s =>
      cases heshape : (locationShapes lib).lookup e.name with
      | none => exact (commute_of_unknown heshape _ st).symm
      | some s' =>
          obtain ⟨hdblock, hs⟩ := block_of_accepted hdshape hd
          obtain ⟨heblock, hs'⟩ := block_of_accepted heshape he
          obtain ⟨f, rfl⟩ := Option.ne_none_iff_exists'.mp hs
          obtain ⟨f', rfl⟩ := Option.ne_none_iff_exists'.mp hs'
          obtain ⟨i, hi, hedits⟩ := (locationShapes_edit lib).lookup hdshape
          obtain ⟨j, hj, hedits'⟩ := (locationShapes_edit lib).lookup heshape
          by_cases hij : i = j
          · subst hij
            have hhandler : i = .handler := by
              rcases locationFields_inj _ (mem_of_lookup hi) _ (mem_of_lookup hj) rfl with h | h
              · exact h
              · exact absurd h hname
            subst hhandler
            rcases handler_cases (mem_of_lookup hi) hdblock hd with
              ⟨k, h, hk, hkname, hh, hchange⟩ | ⟨p, g, hp, hpname, hg, hchange⟩
            · rcases handler_cases (mem_of_lookup hj) heblock he with
                ⟨k', h', hk', hkname', -, -⟩ | ⟨p, g, hp, hpname, hg, hchange'⟩
              · have hmem : ∀ k ∈ handlerMakers lib, k.1 ∈ makerNames := by
                  simp [handlerMakers, makerNames]
                exact absurd (hkname' ▸ hmem k' hk') (hmakers (hkname ▸ hmem k hk))
              · have hsame : g h = h := by
                  by_contra hne
                  exact hde ((locationConflict_iff hk hkname hh hp hpname hg).mp hne)
                rw [hchange, Option.bind_some, hchange', hchange', Option.bind_some, hchange,
                  makeHandler_setHandler, setHandler_makeHandler hsame]
            · rcases handler_cases (mem_of_lookup hj) heblock he with
                ⟨k, h, hk, hkname, hh, hchange'⟩ | ⟨p', g', hp', hpname', hg', hchange'⟩
              · have hsame : g h = h := by
                  by_contra hne
                  exact hed ((locationConflict_iff hk hkname hh hp hpname hg).mp hne)
                rw [hchange, Option.bind_some, hchange', hchange', Option.bind_some, hchange,
                  makeHandler_setHandler, setHandler_makeHandler hsame]
              · have hne : p ≠ p' := by
                  rintro rfl
                  exact hname (hpname.trans hpname'.symm)
                have hswap := handlerModifiers_swap.forall hp hp' hne
                rw [hchange, Option.bind_some, hchange', hchange', Option.bind_some, hchange]
                simp only [setHandler, Option.some.injEq]
                rw [hswap _ _ _ _ hg hg']
          · have hdchange : change (locationShapes lib) d = f d.args := by
              funext st
              simp [change, hdshape, hdblock]
            have hechange : change (locationShapes lib) e = f' e.args := by
              funext st
              simp [change, heshape, heblock]
            rw [hdchange, hechange]
            exact commute_of_touches LocationReader.read_injective hij
              (hedits f rfl d.args).touches (hedits' f' rfl e.args).touches st

/-- An accepted directive about the handler has no block. -/
theorem block_of_handler
    {d : Directive}
    (hname : d.name ∈ (handlerMakers lib).map Prod.fst ∨ d.name ∈ handlerModifiers.map Prod.fst)
    (hd : change (locationShapes lib) d .initial ≠ none) :
    d.block = none := by
  have hnames : ∀ name ∈ makerNames ++ handlerModifiers.map Prod.fst,
      name ∈ locationFields.map Prod.fst := by
    decide
  have hknown : d.name ∈ (locationShapes lib).map Prod.fst :=
    hnames _ (List.mem_append.mpr hname)
  cases hshape : (locationShapes lib).lookup d.name with
  | some s => exact (block_of_accepted hshape hd).1
  | none =>
      obtain ⟨entry, hentry, heq⟩ := List.mem_map.mp hknown
      have := List.lookup_eq_none_iff.mp hshape entry hentry
      simp [heq] at this

/-- No directive both makes and changes a handler. -/
theorem not_modifier_of_maker
    {name : Bytes}
    (h : name ∈ (handlerMakers lib).map Prod.fst) :
    name ∉ handlerModifiers.map Prod.fst := by
  have hnames : ∀ name ∈ makerNames, name ∉ handlerModifiers.map Prod.fst := by
    decide
  exact hnames name h

/-- A location has no nested directive. -/
theorem locationShapes_simple
    (lib : Libraries) (name : Bytes) :
    (locationShapes lib).lookup name ≠ some none := by
  intro h
  have hsimple : ∀ entry ∈ locationShapes lib, entry.2 ≠ none := by
    simp [locationShapes]
  exact hsimple _ (mem_of_lookup h) rfl

/-- What a conflict is about. -/
theorem LocationConflict.names
    (lib : Libraries) {d e : Directive}
    (h : LocationConflict d e) :
    d.name ∈ (handlerMakers lib).map Prod.fst ∧ e.name ∈ handlerModifiers.map Prod.fst := by
  have hmakers : (handlerMakers lib).map Prod.fst = makerNames := rfl
  rw [hmakers]
  rcases h with ⟨hd, he⟩ | ⟨hd, he⟩
  · rw [hd]
    refine ⟨by decide, ?_⟩
    rcases he with he | ⟨he, -⟩ | ⟨he, -⟩ | ⟨he, -⟩ <;> rw [he] <;> decide
  · rw [hd]
    refine ⟨by decide, ?_⟩
    rcases he with he | he | ⟨he, -⟩ <;> rw [he] <;> decide

theorem makeHandler_handler
    (h : LocationHandler) (st : LocationReader) :
    (makeHandler h st).handler = h := by
  cases h <;> rfl

/-- The order of two directives in conflict shows in the location. -/
theorem differ_of_locationConflict
    {d e : Directive} (pattern : LocationPattern)
    (hd : change (locationShapes lib) d .initial ≠ none)
    (he : change (locationShapes lib) e .initial ≠ none)
    (h : LocationConflict d e) :
    Differ (change (locationShapes lib)) (fun st => st.finish pattern) d e := by
  intro st
  obtain ⟨hdname, hename⟩ := h.names lib
  have hdblock := block_of_handler (.inl hdname) hd
  have heblock := block_of_handler (.inr hename) he
  obtain ⟨k, hk, hdname⟩ := List.mem_map.mp hdname
  obtain ⟨p, hp, hename⟩ := List.mem_map.mp hename
  cases hh : k.2 d.args with
  | none =>
      rw [change_maker hk hdname.symm hdblock, hh] at hd
      exact absurd rfl hd
  | some made =>
      cases hg : p.2 e.args with
      | none =>
          rw [change_modifier hp hename.symm heblock, hg] at he
          exact absurd rfl he
      | some g =>
          refine ⟨setHandler g (makeHandler made st), makeHandler made st, ?_, ?_, ?_⟩
          · rw [change_maker hk hdname.symm hdblock, hh, Option.map_some, Option.bind_some,
              change_modifier hp hename.symm heblock, hg, Option.map_some]
          · rw [change_modifier hp hename.symm heblock, hg, Option.map_some, Option.bind_some,
              change_maker hk hdname.symm hdblock, hh, Option.map_some, makeHandler_setHandler]
          · intro heq
            have hhandler : g (makeHandler made st).handler = (makeHandler made st).handler :=
              congrArg LocationBlock.handler heq
            rw [makeHandler_handler] at hhandler
            exact (locationConflict_iff hk hdname.symm hh hp hename.symm hg).mpr h hhandler

/-! ### Locations in any order -/

/-- The block that is read off a location of this head and this body. -/
def readLocation (lib : Libraries) (args : List Bytes) (ds : List Directive) :
    Option LocationBlock :=
  Parse.value (parseLocation lib) (words args ++ .openBrace :: (bodyTokens ds ++ [.closeBrace]))

theorem reads_parseLocationHead_iff
    {args : List Bytes} {ts rest : List Token} {pattern : LocationPattern} :
    Reads (parseLocationHead lib) (words args ++ .openBrace :: ts) pattern rest ↔
      parseLocationPattern lib args = .ok pattern ∧ rest = ts := by
  simp only [parseLocationHead, reads_bind_iff, reads_ofExcept_iff, reads_expectOpen_iff]
  constructor
  · rintro ⟨args', rest', hargs, _, rest'', rfl, hpattern, rfl⟩
    obtain ⟨hinput, -⟩ := reads_collectArgs_iff.mp hargs
    obtain ⟨rfl, hrest⟩ := words_append_inj (noWord_openBrace _) (noWord_openBrace _) hinput
    cases hrest
    exact ⟨hpattern, rfl⟩
  · rintro ⟨hpattern, rfl⟩
    exact ⟨args, _, reads_collectArgs_iff.mpr ⟨rfl, noWord_openBrace _⟩, (), _, rfl,
      hpattern, rfl⟩

theorem reads_parseLocation_iff
    {args : List Bytes} {ds : List Directive} {ts rest : List Token} {loc : LocationBlock} :
    Reads (parseLocation lib) (words args ++ .openBrace :: (bodyTokens ds ++ .closeBrace :: ts))
        loc rest ↔
      ∃ pattern st, parseLocationPattern lib args = .ok pattern ∧
        run (change (locationShapes lib)) ds .initial = some st ∧
        loc = st.finish pattern ∧ rest = ts := by
  have hknown : ∀ d ∈ ds, ∀ st st' ts rest,
      Reads (runDirective (locationDirectives lib) unknownDirective d.name st) (d.text ++ ts) st'
        rest ↔ change (locationShapes lib) d st = some st' ∧ rest = ts :=
    fun d _ st st' ts rest => reads_runDirective_iff (locationDirectives_shapes lib)
      (locationShapes_simple lib d.name)
  unfold parseLocation
  rw [reads_bind_iff]
  simp only [reads_parseLocationHead_iff, reads_bind_iff, reads_pure_iff]
  constructor
  · rintro ⟨pattern, _, ⟨hpattern, rfl⟩, st, mid, hblock, rfl, rfl⟩
    obtain ⟨hrun, rfl⟩ := (reads_parseBlock_iff hknown).mp hblock
    exact ⟨pattern, st, hpattern, hrun, rfl, rfl⟩
  · rintro ⟨pattern, st, hpattern, hrun, rfl, rfl⟩
    exact ⟨pattern, _, ⟨hpattern, rfl⟩, st, _, (reads_parseBlock_iff hknown).mpr ⟨hrun, rfl⟩,
      rfl, rfl⟩

theorem readLocation_eq
    (args : List Bytes) (ds : List Directive) :
    readLocation lib args ds =
      (parseLocationPattern lib args).toOption.bind fun pattern =>
        (run (change (locationShapes lib)) ds .initial).map fun st => st.finish pattern := by
  refine Option.ext fun loc => ?_
  unfold readLocation
  rw [value_eq_some_iff]
  simp only [reads_parseLocation_iff, Option.bind_eq_some_iff, Option.map_eq_some_iff,
    EarlyReturn.toOption_eq_some_iff]
  constructor
  · rintro ⟨_, pattern, st, hpattern, hrun, rfl, rfl⟩
    exact ⟨pattern, hpattern, st, hrun, rfl⟩
  · rintro ⟨pattern, hpattern, st, hrun, rfl⟩
    exact ⟨[], pattern, st, hpattern, hrun, rfl, rfl⟩

/-- Nothing is read where the head or a directive by itself is refused. -/
def LocationRefused (lib : Libraries) (args : List Bytes) (ds : List Directive) : Prop :=
  (parseLocationPattern lib args).toOption = none ∨
    ∃ d ∈ ds, change (locationShapes lib) d .initial = none

theorem readLocation_eq_none_of_refused
    {args : List Bytes} {ds : List Directive}
    (h : LocationRefused lib args ds) :
    readLocation lib args ds = none := by
  rw [readLocation_eq]
  rcases h with h | ⟨d, hd, h⟩
  · rw [h, Option.bind_none]
  · have hnone : ∀ st, change (locationShapes lib) d st = none := by
      rcases steady_change (locationShapes_edit lib) d with hsteady | hsteady
      · exact hsteady
      · have := hsteady .initial
        rw [h] at this
        cases this
    rw [run_eq_none hd hnone]
    simp

/-- When a body of directives of distinct names is one location in every order. -/
theorem location_order
    {args : List Bytes} {ds : List Directive}
    (hnames : (ds.map Directive.name).Nodup)
    (hmakers : ∀ d ∈ ds, ∀ e ∈ ds, d.name ∈ makerNames → e.name ∈ makerNames → d = e) :
    (∀ es, es.Perm ds → readLocation lib args es = readLocation lib args ds) ↔
      LocationRefused lib args ds ∨ ∀ d ∈ ds, ∀ e ∈ ds, ¬ LocationConflict d e := by
  by_cases hrefused : LocationRefused lib args ds
  · simp only [hrefused, true_or, iff_true]
    intro es hes
    have hrefused' : LocationRefused lib args es :=
      hrefused.imp_right fun ⟨d, hd, h⟩ => ⟨d, hes.mem_iff.mpr hd, h⟩
    rw [readLocation_eq_none_of_refused hrefused, readLocation_eq_none_of_refused hrefused']
  simp only [hrefused, false_or]
  obtain ⟨hpattern, haccepted⟩ := not_or.mp hrefused
  have haccepted : ∀ d ∈ ds, change (locationShapes lib) d .initial ≠ none :=
    fun d hd h => haccepted ⟨d, hd, h⟩
  obtain ⟨pattern, hpattern⟩ := Option.ne_none_iff_exists'.mp hpattern
  constructor
  · intro hperm d hd e he hconflict
    have hsome : ∀ es : List Directive, es.Sublist ds →
        (run (change (locationShapes lib)) es .initial).isSome := by
      intro es hes
      refine run_isSome (fun d hd => ?_) _
      rcases steady_change (locationShapes_edit lib) d with hsteady | hsteady
      · exact absurd (hsteady _) (haccepted d (hes.subset hd))
      · exact hsteady
    have hne : d ≠ e := by
      rintro rfl
      obtain ⟨hdname, hename⟩ := hconflict.names lib
      exact absurd hename (not_modifier_of_maker hdname)
    obtain ⟨es, es', hes, hes', hdiffer⟩ := exists_perm_of_differ hd he hne hsome
      (differ_of_locationConflict pattern (haccepted d hd) (haccepted e he) hconflict)
    have h := hperm es hes
    have h' := hperm es' hes'
    simp only [readLocation_eq, hpattern, Option.bind_some] at h h'
    exact hdiffer (h.trans h'.symm)
  · intro hconflict es hes
    have hrun : run (change (locationShapes lib)) ds .initial =
        run (change (locationShapes lib)) es .initial :=
      run_perm hes.symm (fun d hd e he => ?_) _
    · rw [readLocation_eq, readLocation_eq, hrun]
    · by_cases hde : d = e
      · rw [hde]
        exact fun _ => rfl
      · have hname : d.name ≠ e.name := fun h =>
          hde (List.inj_on_of_nodup_map hnames hd he h)
        exact location_commute hname
          (fun hdm hem => hde (hmakers d hd e he hdm hem))
          (haccepted d hd) (haccepted e he) (hconflict d hd e he) (hconflict e he d hd)

end Location

end ConfigParser
end RunNginx
