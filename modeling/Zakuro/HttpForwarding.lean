import Zakuro.HttpProxy

/-!
# What the proxy forwards

The header fields that a copying loop leaves behind are the last ones of each
name, spelled as the table spells that name. So a list of fields goes through
unchanged exactly when the table has its names, in its own spelling, and none of
them comes twice.
-/

namespace FieldTable

variable (T : FieldTable)

/-- The field that `set(field.name(), field.value())` adds. -/
def canonical (f : HeaderField) : HeaderField := ⟨T.text (T.fieldName f.name), f.value⟩

/-- The fields under none of the given names. -/
def without (names : List FieldName) (fields : List HeaderField) : List HeaderField :=
  fields.filter (T.fieldName ·.name ∉ names)

/-- The values of the fields of a name. -/
def values (name : FieldName) (fields : List HeaderField) : List String :=
  (fields.filter (T.fieldName ·.name = name)).map HeaderField.value

/-- The table spells the names that are not excluded as the fields do, and has
no two of these fields under one name. -/
structure Copyable (excluded : List FieldName) (fields : List HeaderField) : Prop where
  spelled : ∀ f ∈ T.without excluded fields, T.text (T.fieldName f.name) = f.name
  single : ((T.without excluded fields).map fun f => folded f.name).Nodup

variable {T}

@[simp] theorem fieldName_host : T.fieldName "Host" = .host :=
  fieldName_known (T.standard _ (by simp))

@[simp] theorem fieldName_userAgent : T.fieldName "User-Agent" = .userAgent :=
  fieldName_known (T.standard _ (by simp))

@[simp] theorem fieldName_server : T.fieldName "Server" = .server :=
  fieldName_known (T.standard _ (by simp))

@[simp] theorem fieldName_canonical (f : HeaderField) :
    T.fieldName (T.canonical f).name = T.fieldName f.name :=
  fieldName_text f.name

theorem canonical_canonical (f : HeaderField) : T.canonical (T.canonical f) = T.canonical f := by
  rw [canonical, fieldName_canonical, canonical]

theorem canonical_eq_iff (f : HeaderField) :
    T.canonical f = f ↔ T.text (T.fieldName f.name) = f.name := by
  cases f with
  | mk name value => simp [canonical]

/-- The loop puts the fields in their order, each in the table's spelling. -/
theorem copyFields_eq (excluded : List FieldName) (source target : List HeaderField) :
    T.copyFields excluded source target =
      KeyedList.putAll (fun f => folded f.name) target
        ((T.without excluded source).map T.canonical) := by
  induction source generalizing target with
  | nil => rfl
  | cons f source ih =>
    rw [copyFields, List.foldl_cons, ← copyFields, ih]
    unfold without
    by_cases hf : T.fieldName f.name ∉ excluded
    · rw [if_pos hf, List.filter_cons_of_pos (by simpa using hf)]
      rfl
    · rw [if_neg hf, List.filter_cons_of_neg (by simpa using hf)]

/-- Which of the copied fields have a chosen name, when none of the chosen names
is excluded. -/
theorem copyFields_filter {excluded : List FieldName} {q : FieldName → Bool}
    (h : ∀ n, q n = true → n ∉ excluded) (source target : List HeaderField) :
    (T.copyFields excluded source target).filter (fun f => q (T.fieldName f.name)) =
      KeyedList.putAll (fun f => folded f.name) (target.filter fun f => q (T.fieldName f.name))
        ((source.filter fun f => q (T.fieldName f.name)).map T.canonical) := by
  rw [copyFields_eq, KeyedList.filter_putAll (ofKey_fieldName q), List.filter_map, without,
    List.filter_filter]
  congr 2
  refine List.filter_congr fun f _ => ?_
  cases hq : q (T.fieldName f.name) with
  | false => simp [hq]
  | true => simp [hq, h _ hq]

/-- The fields under an excluded name are the target's. -/
theorem copyFields_excluded {excluded : List FieldName} {name : FieldName} (h : name ∈ excluded)
    (source target : List HeaderField) :
    T.values name (T.copyFields excluded source target) = T.values name target := by
  have hnone : ((T.without excluded source).map T.canonical).filter
      (T.fieldName ·.name = name) = [] := by
    rw [List.filter_map, without, List.filter_filter, List.map_eq_nil_iff, List.filter_eq_nil_iff]
    intro f _ hf
    simp only [Function.comp_apply, fieldName_canonical, Bool.and_eq_true,
      decide_eq_true_eq] at hf
    exact hf.2 (hf.1 ▸ h)
  rw [values, copyFields_eq, KeyedList.filter_putAll (ofKey_fieldName (decide <| · = name)), hnone]
  rfl

/-- The copied fields are those of the source exactly when these are copyable. -/
theorem copyFields_perm_iff {excluded names : List FieldName} (h : excluded ⊆ names)
    (source : List HeaderField) {target : List HeaderField} (ht : T.without names target = []) :
    (T.without names (T.copyFields excluded source target)).Perm (T.without names source) ↔
      T.Copyable names source := by
  have hcopied : T.without names (T.copyFields excluded source target) =
      KeyedList.putAll (fun f => folded f.name) []
        ((T.without names source).map T.canonical) := by
    rw [← ht]
    exact copyFields_filter (q := (decide <| · ∉ names))
      (fun n hn hm => (of_decide_eq_true hn) (h hm)) source target
  rw [hcopied, KeyedList.putAll_map_perm_iff canonical_canonical]
  constructor
  · rintro ⟨hs, hn⟩
    exact ⟨fun f hf => (canonical_eq_iff f).mp (hs f hf), hn⟩
  · rintro ⟨hs, hn⟩
    exact ⟨fun f hf => (canonical_eq_iff f).mpr (hs f hf), hn⟩

end FieldTable

/-- The names that are not copied to the upstream request. -/
def requestExcluded : List FieldName :=
  [.host, .connection, .userAgent] ++ FieldName.framing

/-- The names that are not copied to the client's response. -/
def responseExcluded : List FieldName :=
  [.connection, .transferEncoding, .server] ++ FieldName.framing

/-- The upstream request is the client's, but for the `Host`, the `User-Agent`,
the `Connection` and the framing fields. -/
structure RequestForwarded (T : FieldTable) (hostHeader : String)
    (req upstream : HttpRequest) : Prop where
  method : upstream.method = req.method
  target : upstream.target = req.target
  body : upstream.body = req.body
  host : T.values .host upstream.fields = [hostHeader]
  userAgent : T.values .userAgent upstream.fields = ["Zakuro/1.0"]
  connection : T.values .connection upstream.fields = []
  fields : (T.without requestExcluded upstream.fields).Perm (T.without requestExcluded req.fields)

/-- The response given to the client is the upstream server's, but for the
`Server`, the framing fields, and the `Connection` field, which is the proxy's
own. -/
structure ResponseForwarded (T : FieldTable) (upstream res : HttpResponse) : Prop where
  status : res.status = upstream.status
  body : res.body = upstream.body
  server : T.values .server res.fields = ["Zakuro"]
  fields : (T.without responseExcluded res.fields).Perm (T.without responseExcluded upstream.fields)

namespace HttpProxy

variable (B : Beast) (p : HttpProxy)

/-- Fields that agree outside some names agree on any choice that leaves these out. -/
theorem filter_of_filter {q r : HeaderField → Bool} {fs gs : List HeaderField}
    (h : fs.filter r = gs.filter r) (hqr : ∀ f, q f = true → r f = true) :
    fs.filter q = gs.filter q := by
  have hand : (fun f => q f && r f) = q := by
    funext f
    cases hq : q f with
    | false => rfl
    | true => simpa using hqr f hq
  calc fs.filter q = (fs.filter r).filter q := by rw [List.filter_filter, hand]
    _ = (gs.filter r).filter q := by rw [h]
    _ = gs.filter q := by rw [List.filter_filter, hand]

theorem upstreamRequest_filter {req m : HttpRequest} (hm : p.upstreamRequest B req = .ok m)
    {q : FieldName → Bool} (h : ∀ n, q n = true → n ∉ FieldName.framing) :
    m.fields.filter (fun f => q (B.fieldName f.name)) =
      (B.copyFields [.host, .connection, .userAgent] req.fields
        (B.set (B.set [] .host p.hostHeader) .userAgent "Zakuro/1.0")).filter
          (fun f => q (B.fieldName f.name)) := by
  obtain ⟨-, rfl⟩ := Beast.preparePayload_ok_iff.mp hm
  exact filter_of_filter (B.prepareRequest_other _) fun f hf => by simpa using h _ hf

/-- The fields that a request to the upstream server starts with. -/
theorem request_fields :
    B.set (B.set [] .host p.hostHeader) .userAgent "Zakuro/1.0" =
      [⟨"Host", p.hostHeader⟩, ⟨"User-Agent", "Zakuro/1.0"⟩] := by
  have h : folded "Host" ≠ folded "User-Agent" := by decide
  simp [FieldTable.set, KeyedList.put, FieldTable.text, FieldName.host, FieldName.userAgent, h]

theorem upstreamRequest_values {req m : HttpRequest} (hm : p.upstreamRequest B req = .ok m)
    {name : FieldName} (h : name ∈ [FieldName.host, .connection, .userAgent]) :
    B.values name m.fields = B.values name [⟨"Host", p.hostHeader⟩, ⟨"User-Agent", "Zakuro/1.0"⟩] := by
  have hframing : name ∉ FieldName.framing := by
    revert name
    decide
  have hfields := upstreamRequest_filter B p hm (q := (decide <| · = name))
    fun n hn => of_decide_eq_true hn ▸ hframing
  rw [← request_fields B p]
  exact (congrArg (List.map HeaderField.value) hfields).trans
    (FieldTable.copyFields_excluded h req.fields _)

theorem upstreamRequest_without {req m : HttpRequest} (hm : p.upstreamRequest B req = .ok m) :
    (B.without requestExcluded m.fields).Perm (B.without requestExcluded req.fields) ↔
      B.Copyable requestExcluded req.fields := by
  have hfields : B.without requestExcluded m.fields = _ :=
    upstreamRequest_filter B p hm (q := (decide <| · ∉ requestExcluded))
      fun n hn hmem => of_decide_eq_true hn (List.mem_append_right _ hmem)
  rw [hfields, request_fields]
  refine FieldTable.copyFields_perm_iff (List.subset_append_left _ _) req.fields ?_
  simp [FieldTable.without]

/-- A request is forwarded unchanged exactly when its method is one of Beast's
verbs and its fields are copyable. -/
theorem upstreamRequest_iff {req m : HttpRequest} (hm : p.upstreamRequest B req = .ok m) :
    RequestForwarded B.toFieldTable p.hostHeader req m ↔
      B.methodText req.method = req.method ∧ B.Copyable requestExcluded req.fields := by
  have hvalues := fun {name : FieldName} => @upstreamRequest_values B p req m hm name
  have hwithout := upstreamRequest_without B p hm
  obtain ⟨-, rfl⟩ := Beast.preparePayload_ok_iff.mp hm
  constructor
  · intro h
    exact ⟨h.method, hwithout.mp h.fields⟩
  · rintro ⟨hmethod, hc⟩
    exact {
      method := hmethod
      target := rfl
      body := rfl
      host := by
        rw [hvalues (by simp)]
        simp [FieldTable.values, FieldName.host, FieldName.userAgent]
      userAgent := by
        rw [hvalues (by simp)]
        simp [FieldTable.values, FieldName.host, FieldName.userAgent]
      connection := by
        rw [hvalues (by simp)]
        simp [FieldTable.values, FieldName.host, FieldName.userAgent, FieldName.connection]
      fields := hwithout.mpr hc }

theorem downstreamResponse_small (h : p.proxyRes.body.length ≤ kMaxProxyResponseSize) :
    p.downstreamResponse B = B.preparePayloadResponse
      { status := B.result p.proxyRes.status
        version := p.reqVersion
        fields := B.setKeepAlive p.reqVersion p.keepAlive
          (B.copyFields [.connection, .transferEncoding, .server] p.proxyRes.fields
            [⟨"Server", "Zakuro"⟩])
        body := p.proxyRes.body } :=
  if_neg (by omega)

theorem downstreamResponse_filter (h : p.proxyRes.body.length ≤ kMaxProxyResponseSize)
    {q : FieldName → Bool} (hq : ∀ n, q n = true → n ≠ .connection ∧ n ∉ FieldName.framing) :
    (p.downstreamResponse B).fields.filter (fun f => q (B.fieldName f.name)) =
      (B.copyFields [.connection, .transferEncoding, .server] p.proxyRes.fields
        [⟨"Server", "Zakuro"⟩]).filter (fun f => q (B.fieldName f.name)) := by
  rw [downstreamResponse_small B p h]
  refine (filter_of_filter (B.prepareResponse_other _) ?_).trans
    (filter_of_filter (B.setKeepAlive_other _ _ _) ?_)
  · intro f hf
    simpa using (hq _ hf).2
  · intro f hf
    simpa using (hq _ hf).1

theorem downstreamResponse_server (h : p.proxyRes.body.length ≤ kMaxProxyResponseSize) :
    B.values .server (p.downstreamResponse B).fields = ["Zakuro"] := by
  have hfields := downstreamResponse_filter B p h (q := (decide <| · = .server))
    fun n hn => of_decide_eq_true hn ▸ by decide
  calc B.values .server (p.downstreamResponse B).fields
      = B.values .server _ := congrArg (List.map HeaderField.value) hfields
    _ = B.values .server [⟨"Server", "Zakuro"⟩] :=
        FieldTable.copyFields_excluded (by simp) p.proxyRes.fields _
    _ = ["Zakuro"] := by simp [FieldTable.values]

theorem downstreamResponse_without (h : p.proxyRes.body.length ≤ kMaxProxyResponseSize) :
    (B.without responseExcluded (p.downstreamResponse B).fields).Perm
        (B.without responseExcluded p.proxyRes.fields) ↔
      B.Copyable responseExcluded p.proxyRes.fields := by
  have hfields : B.without responseExcluded (p.downstreamResponse B).fields = _ :=
    downstreamResponse_filter B p h (q := (decide <| · ∉ responseExcluded)) fun n hn =>
      ⟨fun hm => of_decide_eq_true hn (hm ▸ by decide),
        fun hm => of_decide_eq_true hn (List.mem_append_right _ hm)⟩
  rw [hfields]
  refine FieldTable.copyFields_perm_iff (List.subset_append_left _ _) p.proxyRes.fields ?_
  simp [FieldTable.without]

/-- A response within the limit of the size is forwarded unchanged exactly when
its status is one of Beast's and its fields are copyable. -/
theorem downstreamResponse_iff (h : p.proxyRes.body.length ≤ kMaxProxyResponseSize) :
    ResponseForwarded B.toFieldTable p.proxyRes.toHttpResponse (p.downstreamResponse B) ↔
      B.result p.proxyRes.status = p.proxyRes.status ∧
        B.Copyable responseExcluded p.proxyRes.fields := by
  constructor
  · intro hf
    refine ⟨?_, (downstreamResponse_without B p h).mp hf.fields⟩
    simpa [downstreamResponse_small B p h, Beast.preparePayloadResponse] using hf.status
  · rintro ⟨hs, hc⟩
    exact {
      status := by simpa [downstreamResponse_small B p h, Beast.preparePayloadResponse] using hs
      body := by simp [downstreamResponse_small B p h, Beast.preparePayloadResponse]
      server := downstreamResponse_server B p h
      fields := (downstreamResponse_without B p h).mpr hc }

end HttpProxy
