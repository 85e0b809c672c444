import WaferSat.Camera.Mode
import WaferSat.Foundation.Served
import WaferSat.Telemetry.I2c

/-!
The configuration of the camera over I2C. Both configurations reset the sensor and send a table of
registers up to its end mark, and do not look at the outcome of the transactions. What the sensor
then does is decided by the last write to each register that arrived.
-/
namespace WaferSat.Camera
open Dialog Telemetry

/-- `struct regval_list` -/
structure RegVal where
  reg : BitVec 16
  val : BitVec 8
  deriving DecidableEq

def dvpInitRGBHead : List RegVal :=
  [⟨0x3103, 0x11⟩, ⟨0x3008, 0x82⟩, ⟨0x3008, 0x42⟩, ⟨0x3103, 0x02⟩, ⟨0x3031, 0x08⟩, ⟨0x3017, 0xff⟩,
   ⟨0x3018, 0xff⟩, ⟨0x4740, 0x26⟩, ⟨0x460c, 0x22⟩, ⟨0x3824, 0x02⟩, ⟨0x3630, 0x2e⟩, ⟨0x3632, 0xe2⟩,
   ⟨0x3633, 0x23⟩, ⟨0x3621, 0xe0⟩, ⟨0x3704, 0xa0⟩, ⟨0x3703, 0x5a⟩, ⟨0x3715, 0x78⟩, ⟨0x3717, 0x01⟩,
   ⟨0x370b, 0x60⟩, ⟨0x3705, 0x1a⟩, ⟨0x3905, 0x02⟩, ⟨0x3906, 0x10⟩, ⟨0x3901, 0x0a⟩, ⟨0x3731, 0x12⟩,
   ⟨0x3600, 0x08⟩, ⟨0x3601, 0x33⟩, ⟨0x3618, 0x00⟩, ⟨0x3612, 0x49⟩, ⟨0x371b, 0x20⟩, ⟨0x471c, 0x50⟩,
   ⟨0x4713, 0x03⟩, ⟨0x3635, 0x1c⟩, ⟨0x3634, 0x40⟩, ⟨0x3622, 0x01⟩]

/-- The part of `OV5640YUV_Sensor_Dvp_Init_RGB` between `#ifdef` and `#endif` for each mode. -/
def dvpInitRGBMode : Mode → List RegVal
  | .mode320x240 =>
    [⟨0x380c, 0x07⟩, ⟨0x380d, 0x68⟩, ⟨0x380e, 0x01⟩, ⟨0x380f, 0xf0⟩, ⟨0x3814, 0x71⟩,
     ⟨0x3815, 0x35⟩, ⟨0x3821, 0x01⟩, ⟨0x3808, 0x01⟩, ⟨0x3809, 0x40⟩, ⟨0x380a, 0x00⟩,
     ⟨0x380b, 0xf0⟩, ⟨0x3811, 0x08⟩, ⟨0x3813, 0x02⟩]
  | .mode640x480 =>
    [⟨0x380c, 0x07⟩, ⟨0x380d, 0x68⟩, ⟨0x380e, 0x01⟩, ⟨0x380f, 0xf0⟩, ⟨0x3814, 0x71⟩,
     ⟨0x3815, 0x35⟩, ⟨0x3821, 0x01⟩, ⟨0x3808, 0x02⟩, ⟨0x3809, 0x80⟩, ⟨0x380a, 0x01⟩,
     ⟨0x380b, 0xe0⟩, ⟨0x3811, 0x08⟩, ⟨0x3813, 0x02⟩]
  | .mode1280x960 =>
    [⟨0x3800, 0x02⟩, ⟨0x3801, 0x00⟩, ⟨0x3802, 0x02⟩, ⟨0x3803, 0x00⟩, ⟨0x3804, 0x0a⟩,
     ⟨0x3805, 0x2f⟩, ⟨0x3806, 0x07⟩, ⟨0x3807, 0x9b⟩, ⟨0x3808, 0x05⟩, ⟨0x3809, 0x00⟩,
     ⟨0x380a, 0x03⟩, ⟨0x380b, 0xc0⟩, ⟨0x380c, 0x0b⟩, ⟨0x380d, 0x1c⟩, ⟨0x380e, 0x07⟩,
     ⟨0x380f, 0xb0⟩, ⟨0x3810, 0x00⟩, ⟨0x3811, 0x00⟩, ⟨0x3812, 0x00⟩, ⟨0x3813, 0x00⟩,
     ⟨0x3814, 0x11⟩, ⟨0x3815, 0x11⟩, ⟨0x3821, 0x00⟩]
  | .mode1280x960x2x2 =>
    [⟨0x3800, 0x00⟩, ⟨0x3801, 0x10⟩, ⟨0x3802, 0x00⟩, ⟨0x3803, 0x04⟩, ⟨0x3804, 0x0a⟩,
     ⟨0x3805, 0x2f⟩, ⟨0x3806, 0x07⟩, ⟨0x3807, 0x9b⟩, ⟨0x3808, 0x05⟩, ⟨0x3809, 0x00⟩,
     ⟨0x380a, 0x03⟩, ⟨0x380b, 0xc0⟩, ⟨0x380c, 0x0b⟩, ⟨0x380d, 0x1c⟩, ⟨0x380e, 0x07⟩,
     ⟨0x380f, 0xb0⟩, ⟨0x3810, 0x00⟩, ⟨0x3811, 0x08⟩, ⟨0x3812, 0x00⟩, ⟨0x3813, 0x06⟩,
     ⟨0x3814, 0x31⟩, ⟨0x3815, 0x31⟩, ⟨0x3821, 0x01⟩]
  | .mode2048x1536 =>
    [⟨0x3824, 0x01⟩, ⟨0x3800, 0x00⟩, ⟨0x3801, 0x10⟩, ⟨0x3802, 0x00⟩, ⟨0x3803, 0x04⟩,
     ⟨0x3804, 0x0a⟩, ⟨0x3805, 0x2f⟩, ⟨0x3806, 0x07⟩, ⟨0x3807, 0x9b⟩, ⟨0x3808, 0x08⟩,
     ⟨0x3809, 0x00⟩, ⟨0x380a, 0x06⟩, ⟨0x380b, 0x00⟩, ⟨0x380c, 0x0b⟩, ⟨0x380d, 0x1c⟩,
     ⟨0x380e, 0x07⟩, ⟨0x380f, 0xb0⟩, ⟨0x3810, 0x00⟩, ⟨0x3811, 0x08⟩, ⟨0x3812, 0x00⟩,
     ⟨0x3813, 0x06⟩, ⟨0x3814, 0x11⟩, ⟨0x3815, 0x11⟩, ⟨0x3821, 0x00⟩]

def dvpInitRGBTail : List RegVal :=
  [⟨0x0000, 0x00⟩, ⟨0x0000, 0x00⟩, ⟨0x3708, 0x62⟩, ⟨0x3709, 0x52⟩, ⟨0x370c, 0x03⟩, ⟨0x4001, 0x02⟩,
   ⟨0x4004, 0x02⟩, ⟨0x3000, 0x30⟩, ⟨0x3002, 0x1c⟩, ⟨0x3004, 0xcf⟩, ⟨0x4300, 0x6f⟩, ⟨0x501f, 0x01⟩,
   ⟨0x5000, 0xa7⟩, ⟨0x5001, 0x83⟩, ⟨0x3820, 0x46⟩, ⟨0x3400, 0x06⟩, ⟨0x3401, 0x80⟩, ⟨0x3402, 0x04⟩,
   ⟨0x3403, 0x00⟩, ⟨0x3404, 0x06⟩, ⟨0x3405, 0x00⟩, ⟨0x5180, 0xff⟩, ⟨0x5181, 0xf2⟩, ⟨0x5182, 0x00⟩,
   ⟨0x5183, 0x14⟩, ⟨0x5184, 0x25⟩, ⟨0x5185, 0x24⟩, ⟨0x5186, 0x16⟩, ⟨0x5187, 0x16⟩, ⟨0x5188, 0x16⟩,
   ⟨0x5189, 0x62⟩, ⟨0x518a, 0x62⟩, ⟨0x518b, 0xf0⟩, ⟨0x518c, 0xb2⟩, ⟨0x518d, 0x50⟩, ⟨0x518e, 0x30⟩,
   ⟨0x518f, 0x30⟩, ⟨0x5190, 0x50⟩, ⟨0x5191, 0xf8⟩, ⟨0x5192, 0x04⟩, ⟨0x5193, 0x70⟩, ⟨0x5194, 0xf0⟩,
   ⟨0x5195, 0xf0⟩, ⟨0x5196, 0x03⟩, ⟨0x5197, 0x01⟩, ⟨0x5198, 0x04⟩, ⟨0x5199, 0x12⟩, ⟨0x519a, 0x04⟩,
   ⟨0x519b, 0x00⟩, ⟨0x519c, 0x06⟩, ⟨0x519d, 0x82⟩, ⟨0x519e, 0x38⟩, ⟨0x5381, 0x1e⟩, ⟨0x5382, 0x5b⟩,
   ⟨0x5383, 0x14⟩, ⟨0x5384, 0x06⟩, ⟨0x5385, 0x82⟩, ⟨0x5386, 0x88⟩, ⟨0x5387, 0x7c⟩, ⟨0x5388, 0x60⟩,
   ⟨0x5389, 0x1c⟩, ⟨0x538a, 0x01⟩, ⟨0x538b, 0x98⟩, ⟨0x5300, 0x08⟩, ⟨0x5301, 0x30⟩, ⟨0x5302, 0x3f⟩,
   ⟨0x5303, 0x10⟩, ⟨0x5304, 0x08⟩, ⟨0x5305, 0x30⟩, ⟨0x5306, 0x18⟩, ⟨0x5307, 0x28⟩, ⟨0x5309, 0x08⟩,
   ⟨0x530a, 0x30⟩, ⟨0x530b, 0x04⟩, ⟨0x530c, 0x06⟩, ⟨0x5480, 0x01⟩, ⟨0x5481, 0x06⟩, ⟨0x5482, 0x12⟩,
   ⟨0x5483, 0x24⟩, ⟨0x5484, 0x4a⟩, ⟨0x5485, 0x58⟩, ⟨0x5486, 0x65⟩, ⟨0x5487, 0x72⟩, ⟨0x5488, 0x7d⟩,
   ⟨0x5489, 0x88⟩, ⟨0x548a, 0x92⟩, ⟨0x548b, 0xa3⟩, ⟨0x548c, 0xb2⟩, ⟨0x548d, 0xc8⟩, ⟨0x548e, 0xdd⟩,
   ⟨0x548f, 0xf0⟩, ⟨0x5490, 0x15⟩, ⟨0x5580, 0x06⟩, ⟨0x5583, 0x40⟩, ⟨0x5584, 0x20⟩, ⟨0x5589, 0x10⟩,
   ⟨0x558a, 0x00⟩, ⟨0x558b, 0xf8⟩, ⟨0x5688, 0x22⟩, ⟨0x5689, 0x22⟩, ⟨0x568a, 0x42⟩, ⟨0x568b, 0x24⟩,
   ⟨0x568c, 0x42⟩, ⟨0x568d, 0x24⟩, ⟨0x568e, 0x22⟩, ⟨0x568f, 0x22⟩, ⟨0x3a0f, 0x30⟩, ⟨0x3a10, 0x28⟩,
   ⟨0x3a1b, 0x30⟩, ⟨0x3a1e, 0x28⟩, ⟨0x3a11, 0x61⟩, ⟨0x3a1f, 0x10⟩, ⟨0x4005, 0x1a⟩, ⟨0x3406, 0x01⟩,
   ⟨0x3503, 0x00⟩, ⟨0xffff, 0xff⟩]

/-- `OV5640YUV_Sensor_Dvp_Init_RGB` -/
def dvpInitRGB (m : Mode) : List RegVal := dvpInitRGBHead ++ dvpInitRGBMode m ++ dvpInitRGBTail

/-- `OV5640YUV_Sensor_Dvp_Init` -/
def dvpInit : List RegVal :=
  [⟨0x3008, 0x82⟩, ⟨0x3008, 0x42⟩, ⟨0x3034, 0x1a⟩, ⟨0x3035, 0x31⟩, ⟨0x3036, 0xb4⟩, ⟨0x3037, 0x13⟩,
   ⟨0x3039, 0x00⟩, ⟨0x3103, 0x02⟩, ⟨0x3108, 0x01⟩, ⟨0x460c, 0x22⟩, ⟨0x3824, 0x04⟩, ⟨0x3002, 0x00⟩,
   ⟨0x3006, 0xff⟩, ⟨0x4740, 0x24⟩, ⟨0x3017, 0x7f⟩, ⟨0x3018, 0xff⟩, ⟨0x302c, 0x02⟩, ⟨0x4713, 0x03⟩,
   ⟨0x4404, 0x34⟩, ⟨0x3821, 0x20⟩, ⟨0x4300, 0xf8⟩, ⟨0x501f, 0x00⟩, ⟨0x3a02, 0x07⟩, ⟨0x3a03, 0xb0⟩,
   ⟨0x3a0e, 0x06⟩, ⟨0x3a0d, 0x08⟩, ⟨0x3a14, 0x07⟩, ⟨0x3a15, 0xb0⟩, ⟨0x4001, 0x02⟩, ⟨0x4004, 0x06⟩,
   ⟨0x3406, 0x01⟩, ⟨0x3400, 0x06⟩, ⟨0x3401, 0x80⟩, ⟨0x3402, 0x04⟩, ⟨0x3403, 0x00⟩, ⟨0x3404, 0x06⟩,
   ⟨0x3405, 0x00⟩, ⟨0x5180, 0xff⟩, ⟨0x5181, 0xf2⟩, ⟨0x5182, 0x00⟩, ⟨0x5183, 0x14⟩, ⟨0x5184, 0x25⟩,
   ⟨0x5185, 0x24⟩, ⟨0x5186, 0x16⟩, ⟨0x5187, 0x16⟩, ⟨0x5188, 0x16⟩, ⟨0x5189, 0x62⟩, ⟨0x518a, 0x62⟩,
   ⟨0x518b, 0xf0⟩, ⟨0x518c, 0xb2⟩, ⟨0x518d, 0x50⟩, ⟨0x518e, 0x30⟩, ⟨0x518f, 0x30⟩, ⟨0x5190, 0x50⟩,
   ⟨0x5191, 0xf8⟩, ⟨0x5192, 0x04⟩, ⟨0x5193, 0x70⟩, ⟨0x5194, 0xf0⟩, ⟨0x5195, 0xf0⟩, ⟨0x5196, 0x03⟩,
   ⟨0x5197, 0x01⟩, ⟨0x5198, 0x04⟩, ⟨0x5199, 0x12⟩, ⟨0x519a, 0x04⟩, ⟨0x519b, 0x00⟩, ⟨0x519c, 0x06⟩,
   ⟨0x519d, 0x82⟩, ⟨0x519e, 0x38⟩, ⟨0x5381, 0x1e⟩, ⟨0x5382, 0x5b⟩, ⟨0x5383, 0x14⟩, ⟨0x5384, 0x06⟩,
   ⟨0x5385, 0x82⟩, ⟨0x5386, 0x88⟩, ⟨0x5387, 0x7c⟩, ⟨0x5388, 0x60⟩, ⟨0x5389, 0x1c⟩, ⟨0x538a, 0x01⟩,
   ⟨0x538b, 0x98⟩, ⟨0x5300, 0x08⟩, ⟨0x5301, 0x30⟩, ⟨0x5302, 0x3f⟩, ⟨0x5303, 0x10⟩, ⟨0x5304, 0x08⟩,
   ⟨0x5305, 0x30⟩, ⟨0x5306, 0x18⟩, ⟨0x5307, 0x28⟩, ⟨0x5309, 0x08⟩, ⟨0x530a, 0x30⟩, ⟨0x530b, 0x04⟩,
   ⟨0x530c, 0x06⟩, ⟨0x5480, 0x01⟩, ⟨0x5481, 0x06⟩, ⟨0x5482, 0x12⟩, ⟨0x5483, 0x24⟩, ⟨0x5484, 0x4a⟩,
   ⟨0x5485, 0x58⟩, ⟨0x5486, 0x65⟩, ⟨0x5487, 0x72⟩, ⟨0x5488, 0x7d⟩, ⟨0x5489, 0x88⟩, ⟨0x548a, 0x92⟩,
   ⟨0x548b, 0xa3⟩, ⟨0x548c, 0xb2⟩, ⟨0x548d, 0xc8⟩, ⟨0x548e, 0xdd⟩, ⟨0x548f, 0xf0⟩, ⟨0x5490, 0x15⟩,
   ⟨0x5000, 0xa7⟩, ⟨0x5800, 0x20⟩, ⟨0x5801, 0x19⟩, ⟨0x5802, 0x17⟩, ⟨0x5803, 0x16⟩, ⟨0x5804, 0x18⟩,
   ⟨0x5805, 0x21⟩, ⟨0x5806, 0x0f⟩, ⟨0x5807, 0x0a⟩, ⟨0x5808, 0x07⟩, ⟨0x5809, 0x07⟩, ⟨0x580a, 0x0a⟩,
   ⟨0x580b, 0x0c⟩, ⟨0x580c, 0x0a⟩, ⟨0x580d, 0x03⟩, ⟨0x580e, 0x01⟩, ⟨0x580f, 0x01⟩, ⟨0x5810, 0x03⟩,
   ⟨0x5811, 0x09⟩, ⟨0x5812, 0x0a⟩, ⟨0x5813, 0x03⟩, ⟨0x5814, 0x01⟩, ⟨0x5815, 0x01⟩, ⟨0x5816, 0x03⟩,
   ⟨0x5817, 0x08⟩, ⟨0x5818, 0x10⟩, ⟨0x5819, 0x0a⟩, ⟨0x581a, 0x06⟩, ⟨0x581b, 0x06⟩, ⟨0x581c, 0x08⟩,
   ⟨0x581d, 0x0e⟩, ⟨0x581e, 0x22⟩, ⟨0x581f, 0x18⟩, ⟨0x5820, 0x13⟩, ⟨0x5821, 0x12⟩, ⟨0x5822, 0x16⟩,
   ⟨0x5823, 0x1e⟩, ⟨0x5824, 0x64⟩, ⟨0x5825, 0x2a⟩, ⟨0x5826, 0x2c⟩, ⟨0x5827, 0x2a⟩, ⟨0x5828, 0x46⟩,
   ⟨0x5829, 0x2a⟩, ⟨0x582a, 0x26⟩, ⟨0x582b, 0x24⟩, ⟨0x582c, 0x26⟩, ⟨0x582d, 0x2a⟩, ⟨0x582e, 0x28⟩,
   ⟨0x582f, 0x42⟩, ⟨0x5830, 0x40⟩, ⟨0x5831, 0x42⟩, ⟨0x5832, 0x08⟩, ⟨0x5833, 0x28⟩, ⟨0x5834, 0x26⟩,
   ⟨0x5835, 0x24⟩, ⟨0x5836, 0x26⟩, ⟨0x5837, 0x2a⟩, ⟨0x5838, 0x44⟩, ⟨0x5839, 0x4a⟩, ⟨0x583a, 0x2c⟩,
   ⟨0x583b, 0x2a⟩, ⟨0x583c, 0x46⟩, ⟨0x583d, 0xce⟩, ⟨0x5688, 0x22⟩, ⟨0x5689, 0x22⟩, ⟨0x568a, 0x42⟩,
   ⟨0x568b, 0x24⟩, ⟨0x568c, 0x42⟩, ⟨0x568d, 0x24⟩, ⟨0x568e, 0x22⟩, ⟨0x568f, 0x22⟩, ⟨0x3a0f, 0x30⟩,
   ⟨0x3a10, 0x28⟩, ⟨0x3a1b, 0x30⟩, ⟨0x3a1e, 0x28⟩, ⟨0x3a11, 0x61⟩, ⟨0x3a1f, 0x10⟩, ⟨0x3814, 0x11⟩,
   ⟨0x3815, 0x11⟩, ⟨0x5001, 0x83⟩, ⟨0x3820, 0x46⟩, ⟨0x3821, 0x20⟩, ⟨0x3800, 0x00⟩, ⟨0x3801, 0x00⟩,
   ⟨0x3802, 0x00⟩, ⟨0x3803, 0x00⟩, ⟨0x3804, 0x0a⟩, ⟨0x3805, 0x3f⟩, ⟨0x3806, 0x07⟩, ⟨0x3807, 0x9f⟩,
   ⟨0x3808, 0x0a⟩, ⟨0x3809, 0x20⟩, ⟨0x380a, 0x07⟩, ⟨0x380b, 0x98⟩, ⟨0x380c, 0x0b⟩, ⟨0x380d, 0x1c⟩,
   ⟨0x380e, 0x07⟩, ⟨0x380f, 0xb0⟩, ⟨0x5680, 0x00⟩, ⟨0x5681, 0x00⟩, ⟨0x5682, 0x0a⟩, ⟨0x5683, 0x20⟩,
   ⟨0x5684, 0x00⟩, ⟨0x5685, 0x00⟩, ⟨0x5686, 0x07⟩, ⟨0x5687, 0x98⟩, ⟨0x4005, 0x1a⟩, ⟨0x3406, 0x00⟩,
   ⟨0x3503, 0x00⟩, ⟨0x3008, 0x02⟩, ⟨0xffff, 0xff⟩]

/-- `OV5640_I2C_ADR` -/
def ov5640Address : BitVec 8 := 0x3C

/-- The loop over a table, which ends at the mark `{0xffff, 0xff}`. -/
def sendTable : List RegVal → I2c Unit
  | [] => pure ()
  | e :: es =>
    if e.reg ≠ 0xffff ∨ e.val ≠ 0xff then do
      let _ ← i2cWrite8Reg16 ov5640Address e.reg e.val
      sendTable es
    else pure ()

def transmitTable (table : List RegVal) : I2c Unit := do
  let _ ← i2cWrite8Reg16 ov5640Address 0x3103 0x11
  let _ ← i2cWrite8Reg16 ov5640Address 0x3008 0x82
  sendTable table

/-- `OV5640_TransmitConfig_RGB` -/
def transmitConfigRGB (m : Mode) : I2c Unit := transmitTable (dvpInitRGB m)

/-- `OV5640_TransmitConfig` -/
def transmitConfig : I2c Unit := transmitTable dvpInit

/-- The registers of the sensor. -/
abbrev Sensor := BitVec 16 → BitVec 8

/-- Bit 7 of register 0x3008 resets the sensor, with any effect on its registers. -/
def RegVal.resets (e : RegVal) : Bool := e.reg = 0x3008 && e.val.msb

def Sensor.write (reset : Sensor → Sensor) (e : RegVal) (s : Sensor) : Sensor :=
  if e.resets then reset s else Function.update s e.reg e.val

/-- The sensor and the outcomes of the transactions to come. -/
structure CameraLink where
  outcome : ℕ → Msg
  sensor : Sensor

def CameraLink.serve (reset : Sensor → Sensor) (r : Request) (k : CameraLink) :
    Answer × CameraLink :=
  let sensor :=
    match r.txbuf with
    | [hi, lo, val] => if k.outcome 0 = .ok then k.sensor.write reset ⟨hi ++ lo, val⟩ else k.sensor
    | _ => k.sensor
  (⟨k.outcome 0, fun _ => 0⟩, ⟨fun i => k.outcome (i + 1), sensor⟩)

def cameraLink (reset : Sensor → Sensor) : Service Request Answer (BitVec 8) CameraLink :=
  ⟨Request.address, CameraLink.serve reset⟩

/-- The sensor after a program, when transaction number `i` ends with `outcome i`. -/
def sensorAfter (reset : Sensor → Sensor) (p : I2c Unit) (outcome : ℕ → Msg) (s : Sensor) :
    Sensor :=
  ((p.served (cameraLink reset) fun _ => ⟨outcome, s⟩).2 ov5640Address).sensor

def replay (reset : Sensor → Sensor) : List RegVal → (ℕ → Msg) → Sensor → Sensor
  | [], _, s => s
  | e :: es, outcome, s =>
    replay reset es (fun i => outcome (i + 1))
      (if outcome 0 = .ok then s.write reset e else s)

def entries (table : List RegVal) : List RegVal :=
  table.takeWhile fun e => e.reg ≠ 0xffff ∨ e.val ≠ 0xff

def configWrites (table : List RegVal) : List RegVal :=
  ⟨0x3103, 0x11⟩ :: ⟨0x3008, 0x82⟩ :: entries table

variable {reset : Sensor → Sensor} {b : BitVec 8 → CameraLink}

theorem join_bytes (reg : BitVec 16) :
    ((reg >>> 8).setWidth 8 ++ (reg &&& 0xFF).setWidth 8 : BitVec 16) = reg := by
  have hlow : ((reg &&& 0xFF).setWidth 8).toNat = reg.toNat % 256 := by
    rw [BitVec.toNat_setWidth, BitVec.toNat_and]
    exact (congrArg (· % 2 ^ 8) (Nat.and_two_pow_sub_one_eq_mod reg.toNat 8)).trans
      (Nat.mod_mod reg.toNat 256)
  have hhigh : ((reg >>> 8).setWidth 8).toNat = reg.toNat / 256 := by
    have hreg := reg.isLt
    rw [BitVec.toNat_setWidth, BitVec.toNat_ushiftRight, Nat.shiftRight_eq_div_pow]
    omega
  apply BitVec.eq_of_toNat_eq
  rw [BitVec.toNat_append, hlow, hhigh, ← Nat.shiftLeft_add_eq_or_of_lt (by omega),
    Nat.shiftLeft_eq]
  omega

theorem served_write (e : RegVal) (b : BitVec 8 → CameraLink) :
    ((i2cWrite8Reg16 ov5640Address e.reg e.val).served (cameraLink reset) b).2 ov5640Address =
      ⟨fun i => (b ov5640Address).outcome (i + 1),
        if (b ov5640Address).outcome 0 = .ok then (b ov5640Address).sensor.write reset e
        else (b ov5640Address).sensor⟩ := by
  have hserved : ((i2cWrite8Reg16 ov5640Address e.reg e.val).served (cameraLink reset) b).2 =
      Function.update b ov5640Address ((b ov5640Address).serve reset ⟨ov5640Address,
        [(e.reg >>> 8).setWidth 8, (e.reg &&& 0xFF).setWidth 8, e.val], 0⟩).2 := rfl
  rw [hserved, Function.update_self, CameraLink.serve]
  dsimp only
  rw [join_bytes]

theorem served_sendTable (table : List RegVal) (b : BitVec 8 → CameraLink) :
    (((sendTable table).served (cameraLink reset) b).2 ov5640Address).sensor =
      replay reset (entries table) (b ov5640Address).outcome (b ov5640Address).sensor := by
  induction table generalizing b with
  | nil => rfl
  | cons e es ih =>
    rw [sendTable, entries, List.takeWhile_cons]
    by_cases hmark : e.reg ≠ 0xffff ∨ e.val ≠ 0xff
    · rw [if_pos hmark, if_pos (decide_eq_true hmark), served_bind, ih, served_write]
      rfl
    · rw [if_neg hmark, if_neg (by simpa using hmark)]
      rfl

theorem sensorAfter_transmitTable (table : List RegVal) (outcome : ℕ → Msg) (s : Sensor) :
    sensorAfter reset (transmitTable table) outcome s =
      replay reset (configWrites table) outcome s := by
  rw [sensorAfter, transmitTable, served_bind, served_bind, served_sendTable,
    served_write ⟨0x3008, 0x82⟩, served_write ⟨0x3103, 0x11⟩]
  rfl

/-- The value that some writes leave in a register. A reset makes it unknown. -/
def lastValue (r : BitVec 16) : List RegVal → Option (BitVec 8) → Option (BitVec 8)
  | [], v => v
  | e :: es, v => lastValue r es (if e.resets then none else if e.reg = r then some e.val else v)

/-- The transactions that set one of the registers succeed; resets and all others may fail. -/
def Arrives (rs : List (BitVec 16)) (es : List RegVal) (outcome : ℕ → Msg) : Prop :=
  ∀ i e, es[i]? = some e → e.resets = false → e.reg ∈ rs → outcome i = .ok

theorem write_register {rs : List (BitVec 16)} {e : RegVal} {es : List RegVal}
    {outcome : ℕ → Msg} {r : BitVec 16} {s : Sensor} {acc : Option (BitVec 8)}
    (hok : Arrives rs (e :: es) outcome) (hr : r ∈ rs) (hacc : ∀ v ∈ acc, s r = v) :
    ∀ v ∈ (if e.resets then none else if e.reg = r then some e.val else acc),
      (if outcome 0 = .ok then s.write reset e else s) r = v := by
  intro v hv
  cases hreset : e.resets with
  | true =>
    rw [hreset] at hv
    cases hv
  | false =>
    rw [Sensor.write, hreset]
    rw [hreset] at hv
    by_cases hreg : e.reg = r
    · have hv : some e.val = some v := by simpa [hreg] using hv
      rw [if_pos (hok 0 e rfl hreset (hreg ▸ hr)), ← hreg, ← Option.some.inj hv]
      exact Function.update_self _ _ _
    · have hv : acc = some v := by simpa [hreg] using hv
      have hkeep : Function.update s e.reg e.val r = s r :=
        Function.update_of_ne (Ne.symm hreg) _ _
      by_cases harrived : outcome 0 = .ok
      · rw [if_pos harrived]
        exact hkeep.trans (hacc v hv)
      · rw [if_neg harrived]
        exact hacc v hv

theorem replay_register {rs : List (BitVec 16)} {es : List RegVal} {outcome : ℕ → Msg}
    {r : BitVec 16} {s : Sensor} {acc : Option (BitVec 8)} (hok : Arrives rs es outcome)
    (hr : r ∈ rs) (hacc : ∀ v ∈ acc, s r = v) :
    ∀ v ∈ lastValue r es acc, replay reset es outcome s r = v := by
  induction es generalizing outcome s acc with
  | nil => exact hacc
  | cons e es ih => exact ih (fun i d hd => hok (i + 1) d hd) (write_register hok hr hacc)

/-- The registers that decide what the sensor sends: the output size, the formatter, the format
multiplexer, the JPEG bit and the power state. -/
def formatRegisters : List (BitVec 16) :=
  [0x3808, 0x3809, 0x380a, 0x380b, 0x4300, 0x501f, 0x3821, 0x3008]

/-- What the sensor sends. -/
structure Format where
  width : ℕ
  height : ℕ
  formatter : BitVec 8
  multiplexer : BitVec 8
  jpeg : Bool
  powerDown : Bool
  deriving DecidableEq

def Sensor.format (s : Sensor) : Format where
  width := (s 0x3808 ++ s 0x3809).toNat
  height := (s 0x380a ++ s 0x380b).toNat
  formatter := s 0x4300
  multiplexer := s 0x501f
  jpeg := (s 0x3821)[5]
  powerDown := (s 0x3008)[6]

theorem format_congr {s t : Sensor} (h : ∀ r ∈ formatRegisters, s r = t r) :
    s.format = t.format := by
  simp only [formatRegisters, List.forall_mem_cons] at h
  obtain ⟨h₁, h₂, h₃, h₄, h₅, h₆, h₇, h₈, -⟩ := h
  simp only [Sensor.format, h₁, h₂, h₃, h₄, h₅, h₆, h₇, h₈]

def tableSensor (table : List RegVal) : Sensor :=
  fun r => (lastValue r (configWrites table) none).getD 0

theorem format_after {table : List RegVal} {outcome : ℕ → Msg}
    (hok : Arrives formatRegisters (configWrites table) outcome)
    (hset : formatRegisters.all fun r => (lastValue r (configWrites table) none).isSome)
    (s : Sensor) :
    (sensorAfter reset (transmitTable table) outcome s).format = (tableSensor table).format := by
  refine format_congr fun r hr => ?_
  obtain ⟨v, hv⟩ := Option.isSome_iff_exists.mp (List.all_eq_true.mp hset r hr)
  rw [sensorAfter_transmitTable, tableSensor, hv]
  exact replay_register hok hr (fun _ h => absurd h (Option.not_mem_none _)) v hv

/-- From any state, and whatever a reset does, the RGB configuration leaves the sensor with RGB565
frames of exactly the size of the buffer, and in the power-down state that its table enters and
never leaves. The JPEG configuration leaves it running, with JPEG frames of 2592×1944. -/
theorem transmitConfig_format (reset : Sensor → Sensor) (outcome : ℕ → Msg) (s : Sensor) :
    (∀ m, Arrives formatRegisters (configWrites (dvpInitRGB m)) outcome →
      (sensorAfter reset (transmitConfigRGB m) outcome s).format =
        ⟨m.maxx, m.maxy, 0x6f, 0x01, false, true⟩) ∧
    (Arrives formatRegisters (configWrites dvpInit) outcome →
      (sensorAfter reset transmitConfig outcome s).format =
        ⟨2592, 1944, 0xf8, 0x00, true, false⟩) := by
  refine ⟨fun m hok => ?_, fun hok => ?_⟩
  · rw [transmitConfigRGB, format_after hok (by cases m <;> decide +kernel)]
    cases m <;> decide +kernel
  · rw [transmitConfig, format_after hok (by decide +kernel)]
    decide +kernel

theorem transmitConfig_format_ok :
    (sensorAfter id (transmitConfigRGB .mode640x480) (fun _ => .ok) fun _ => 0).format =
        ⟨640, 480, 0x6f, 0x01, false, true⟩ ∧
      (sensorAfter id transmitConfig (fun _ => .ok) fun _ => 0).format =
        ⟨2592, 1944, 0xf8, 0x00, true, false⟩ :=
  ⟨(transmitConfig_format id (fun _ => .ok) fun _ => 0).1 .mode640x480 fun _ _ _ _ _ => rfl,
    (transmitConfig_format id (fun _ => .ok) fun _ => 0).2 fun _ _ _ _ _ => rfl⟩

end WaferSat.Camera
