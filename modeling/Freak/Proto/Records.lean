import Freak.Lib.Schema

/-! The records that the modules exchange: `jsonb/proto_*.h`. -/
namespace Freak.Proto

open Schema

def intTy : Ty := .leaf .int
def int32Ty : Ty := .leaf .int32
def uint32Ty : Ty := .leaf .uint32

/-- `proto_num_t`. -/
def numTy : Ty := .struct (.field "num" int32Ty .nil)

def pointTy : Ty := .struct (.field "x" int32Ty (.field "y" int32Ty .nil))

def rectTy : Ty :=
  .struct (.field "x" int32Ty (.field "y" int32Ty (.field "w" uint32Ty (.field "h" uint32Ty .nil))))

/-- `proto_bsp_dummy_cfg_t` and `proto_bsp_dummy_cap_t`. -/
def dummyTy : Ty := .struct (.field "value" intTy .nil)

/-- `proto_vsf_frame_cfg_t`. -/
def frameCfgTy : Ty :=
  .struct (.field "id" intTy (.field "enable" intTy (.field "format" intTy (.field "width" intTy
    (.field "height" intTy (.field "fps" intTy .nil))))))

/-- `proto_vsf_stream_cfg_t`. -/
def streamCfgTy : Ty :=
  .struct (.field "id" intTy (.field "enable" intTy (.field "encode" intTy (.field "width" intTy
    (.field "height" intTy (.field "fps" intTy .nil))))))

/-- `proto_vsf_frame_cap_t` and its siblings. -/
def chnCapTy : Ty :=
  .struct (.field "id" intTy (.field "chn" intTy (.field "subchn" intTy .nil)))

def osdMaskTy : Ty := .struct (.field "points" (.array 4 pointTy) (.field "color" uint32Ty .nil))

def osdTextTy : Ty :=
  .struct (.field "point" pointTy (.field "size" uint32Ty (.field "color" uint32Ty
    (.field "text" (.leaf (.string 32)) .nil))))

def osdTextsTy : Ty :=
  .struct (.field "num" uint32Ty (.field "texts" (.array 8 osdTextTy) .nil))

def osdObjTy : Ty :=
  .struct (.field "id" intTy (.field "color" uint32Ty (.field "rect" rectTy .nil)))

def osdObjsTy : Ty := .struct (.field "num" uint32Ty (.field "objs" (.array 16 osdObjTy) .nil))

/-- `proto_vsf_osd_cfg_union_t`. -/
def osdUnionTy : Ty :=
  .union 32 388 (.field "mask" osdMaskTy (.field "texts" osdTextsTy (.field "objs" osdObjsTy .nil)))

/-- `proto_vsf_osd_cfg_t`. -/
def osdCfgTy : Ty :=
  .struct (.field "id" intTy (.field "enable" intTy (.field "info" osdUnionTy .nil)))

/-- `proto_rtsp_svr_cfg_t` and `proto_web_svr_cfg_t`. -/
def svrCfgTy : Ty :=
  .struct (.field "id" intTy (.field "enable" intTy (.field "ip" (.leaf (.string 64))
    (.field "port" intTy .nil))))

def svrCapTy : Ty := .struct (.field "id" intTy (.field "dummy" intTy .nil))

/-- `proto_app_alg_cfg_t`. -/
def algCfgTy : Ty :=
  .struct (.field "id" intTy (.field "type" intTy (.field "enable" intTy
    (.field "algpath" (.leaf (.string 64)) .nil))))

def algCapTy : Ty := .struct (.field "id" intTy (.field "frame" intTy .nil))

/-- `proto_header_t`, whose data begins in its last two bytes. -/
def headerTy : Ty :=
  .struct (.field "version" (.leaf .uint8) (.pad 7 (.field "ts" (.leaf .uint64)
    (.field "chn" (.leaf .uint8) (.pad 3 (.field "key" (.leaf (.enum ["PROTO_BSP_KEY_DUMMY",
      "PROTO_VSF_KEY_FRAME", "PROTO_VSF_KEY_STREAM", "PROTO_VSF_KEY_OSD", "PROTO_RTSP_KEY_SVR",
      "PROTO_WEB_KEY_SVR", "PROTO_APP_KEY_ALG", "PROTO_KEY_MAX"]))
    (.field "action" (.leaf (.enum ["PROTO_ACTION_NUM", "PROTO_ACTION_CAP", "PROTO_ACTION_GET",
      "PROTO_ACTION_SET", "PROTO_ACTION_TGR"]))
    (.field "errcode" (.leaf .uint8) (.pad 3
    (.field "format" (.leaf (.enum ["PROTO_FORMAT_STRUCTE", "PROTO_FORMAT_JSON"]))
    (.field "size" (.leaf .uint16) (.field "data" (.array 0 (.leaf .uint8))
    (.pad 2 .nil)))))))))))))

/-- The types of the messages' records. -/
inductive Record
  | num
  | dummyCfg
  | dummyCap
  | frameCfg
  | frameCap
  | streamCfg
  | streamCap
  | osdCfg
  | osdCap
  | rtspCfg
  | rtspCap
  | webCfg
  | webCap
  | algCfg
  | algCap
deriving DecidableEq

namespace Record

def ty : Record → Ty
  | .num => numTy
  | .dummyCfg | .dummyCap => dummyTy
  | .frameCfg => frameCfgTy
  | .streamCfg => streamCfgTy
  | .frameCap | .streamCap | .osdCap => chnCapTy
  | .osdCfg => osdCfgTy
  | .rtspCfg | .webCfg => svrCfgTy
  | .rtspCap | .webCap => svrCapTy
  | .algCfg => algCfgTy
  | .algCap => algCapTy

theorem size_le (r : Record) : r.ty.size ≤ 428 := by cases r <;> decide

theorem size_pos (r : Record) : 0 < r.ty.size := by cases r <;> decide

/-- Names that case does not confuse, and fields that JSON holds. -/
theorem wf (r : Record) : r.ty.Wf := by
  have hpoint : pointTy.Wf := ⟨by decide, by decide, trivial, trivial, trivial⟩
  have hrect : rectTy.Wf :=
    ⟨by decide, by decide, trivial, trivial, trivial, trivial, trivial⟩
  have htext : osdTextTy.Wf := ⟨by decide, by decide, hpoint, trivial, trivial, trivial, trivial⟩
  have hobj : osdObjTy.Wf := ⟨by decide, by decide, trivial, trivial, hrect, trivial⟩
  have hunion : osdUnionTy.Wf :=
    ⟨by decide, by decide, by decide, ⟨by decide, by decide, hpoint, trivial, trivial⟩, by decide,
      ⟨by decide, by decide, trivial, htext, trivial⟩, by decide,
      ⟨by decide, by decide, trivial, hobj, trivial⟩, trivial⟩
  cases r with
  | osdCfg => exact ⟨by decide, by decide, trivial, trivial, hunion, trivial⟩
  | num | dummyCfg | dummyCap => exact ⟨by decide, by decide, trivial, trivial⟩
  | rtspCap | webCap | algCap => exact ⟨by decide, by decide, trivial, trivial, trivial⟩
  | frameCap | streamCap | osdCap =>
    exact ⟨by decide, by decide, trivial, trivial, trivial, trivial⟩
  | rtspCfg | webCfg | algCfg =>
    exact ⟨by decide, by decide, trivial, trivial, trivial, trivial, trivial⟩
  | frameCfg | streamCfg =>
    exact ⟨by decide, by decide, trivial, trivial, trivial, trivial, trivial, trivial, trivial⟩

/-- Every record begins with a number. -/
theorem same_first {r : Record} {a b : List UInt8} (h : r.ty.Same a b) : a.take 4 = b.take 4 := by
  cases r <;> exact h.1

theorem s2j_obj (r : Record) (cs : Codecs) (img : List UInt8) :
    ∃ ms, r.ty.s2j cs img = .obj ms := by
  cases r <;> exact ⟨_, rfl⟩

end Record

end Freak.Proto
