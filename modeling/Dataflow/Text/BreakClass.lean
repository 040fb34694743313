import Dataflow.Text.Ranges

/-!
# Classes of characters for breaking lines

Whether a line can be broken between two characters depends on their classes. Every character has
one; letters are the class of all that is nothing else.

* `BreakClass`: the classes;
* `BreakClass.ofChar`: the class of a character.
-/

namespace Dataflow

/-- What a character means for breaking lines. -/
inductive BreakClass where
  /-- Breaks the line after it. -/
  | mandatory
  | carriageReturn
  | lineFeed
  | nextLine
  | space
  /-- Allows a break after it, even after spaces. -/
  | zeroWidthSpace
  /-- Keeps the next character. -/
  | joiner
  /-- Belongs to the character before it. -/
  | combining
  | wordJoiner
  /-- Allows no break on either side. -/
  | glue
  /-- Allows a break on both sides. -/
  | dash
  /-- Allows a break after it. -/
  | after
  /-- Allows a break before it. -/
  | before
  | hyphen
  /-- Something embedded in the text. -/
  | contingent
  | closing
  /-- A closing parenthesis. -/
  | parenthesis
  | exclamation
  | inseparable
  /-- Does not start a line. -/
  | nonstarter
  | opening
  | quotation
  /-- Separates the parts of a number. -/
  | separator
  | numeric
  /-- Stands behind numbers. -/
  | percent
  /-- Stands before numbers. -/
  | currency
  | slash
  /-- Letters, and all that is nothing else. -/
  | letter
  | hebrew
  | ideograph
  | emojiBase
  | emojiModifier
  | leadingJamo
  | vowelJamo
  | trailingJamo
  /-- A Hangul syllable without a final consonant. -/
  | openSyllable
  /-- A Hangul syllable with a final consonant. -/
  | closedSyllable
  /-- Half of a flag. -/
  | regional
  deriving DecidableEq, Repr, Inhabited

namespace BreakClass

/-- Part 0 of `combiningBounds`. -/
def combiningBounds0 : List Nat :=
  [0, 9, 14, 32, 127, 133, 134, 160, 768, 847, 848, 860, 867, 880, 1155, 1162, 1425, 1470, 1471,
    1472, 1473, 1475, 1476, 1478, 1479, 1480, 1552, 1563, 1564, 1565, 1611, 1632, 1648, 1649, 1750,
    1757, 1759, 1765, 1767, 1769, 1770, 1774, 1809, 1810, 1840, 1867, 1958, 1969, 2027, 2036, 2045,
    2046, 2070, 2074, 2075, 2084, 2085, 2088, 2089, 2094, 2137, 2140, 2200, 2208, 2250, 2274, 2275,
    2308, 2362, 2365, 2366, 2384, 2385, 2392, 2402, 2404, 2433, 2436, 2492, 2493, 2494, 2501, 2503,
    2505, 2507, 2510, 2519, 2520, 2530, 2532, 2558, 2559, 2561, 2564, 2620, 2621, 2622, 2627, 2631,
    2633, 2635, 2638, 2641, 2642, 2672, 2674, 2677, 2678, 2689, 2692, 2748, 2749, 2750, 2758, 2759,
    2762, 2763, 2766, 2786, 2788, 2810, 2816, 2817, 2820, 2876, 2877, 2878, 2885, 2887, 2889, 2891,
    2894, 2901, 2904, 2914, 2916, 2946, 2947, 3006, 3011, 3014, 3017, 3018, 3022, 3031, 3032, 3072,
    3077, 3132, 3133, 3134, 3141, 3142, 3145, 3146, 3150, 3157, 3159, 3170, 3172, 3201, 3204, 3260,
    3261, 3262, 3269, 3270, 3273, 3274, 3278, 3285, 3287, 3298, 3300, 3315, 3316, 3328, 3332, 3387,
    3389, 3390, 3397, 3398, 3401, 3402, 3406, 3415, 3416, 3426, 3428, 3457, 3460, 3530, 3531, 3535,
    3541, 3542, 3543, 3544, 3552, 3570, 3572, 3633, 3634, 3636, 3643, 3655, 3663, 3761, 3762, 3764,
    3773, 3784, 3791, 3864, 3866, 3893, 3894, 3895, 3896, 3897, 3898, 3902, 3904, 3953, 3967, 3968,
    3973, 3974, 3976, 3981, 3992, 3993, 4029, 4038, 4039, 4139, 4159, 4182, 4186]

/-- Part 1 of `combiningBounds`. -/
def combiningBounds1 : List Nat :=
  [4190, 4193, 4194, 4197, 4199, 4206, 4209, 4213, 4226, 4238, 4239, 4240, 4250, 4254, 4957, 4960,
    5906, 5910, 5938, 5941, 5970, 5972, 6002, 6004, 6068, 6100, 6109, 6110, 6155, 6158, 6159, 6160,
    6277, 6279, 6313, 6314, 6432, 6444, 6448, 6460, 6679, 6684, 6741, 6751, 6752, 6781, 6783, 6784,
    6832, 6863, 6912, 6917, 6964, 6981, 7019, 7028, 7040, 7043, 7073, 7086, 7142, 7156, 7204, 7224,
    7376, 7379, 7380, 7401, 7405, 7406, 7412, 7413, 7415, 7418, 7616, 7629, 7630, 7676, 7677, 7680,
    8204, 8205, 8206, 8208, 8234, 8239, 8294, 8304, 8400, 8433, 11503, 11506, 11647, 11648, 11744,
    11776, 12330, 12336, 12341, 12342, 12441, 12443, 42607, 42611, 42612, 42622, 42654, 42656,
    42736, 42738, 43010, 43011, 43014, 43015, 43019, 43020, 43043, 43048, 43052, 43053, 43136,
    43138, 43188, 43206, 43232, 43250, 43263, 43264, 43302, 43310, 43335, 43348, 43392, 43396,
    43443, 43457, 43493, 43494, 43561, 43575, 43587, 43588, 43596, 43598, 43643, 43646, 43696,
    43697, 43698, 43701, 43703, 43705, 43710, 43712, 43713, 43714, 43755, 43760, 43765, 43767,
    44003, 44011, 44012, 44014, 64286, 64287, 65024, 65040, 65056, 65072, 65529, 65532, 66045,
    66046, 66272, 66273, 66422, 66427, 68097, 68100, 68101, 68103, 68108, 68112, 68152, 68155,
    68159, 68160, 68325, 68327, 68900, 68904, 69291, 69293, 69373, 69376, 69446, 69457, 69506,
    69510, 69632, 69635, 69688, 69703, 69744, 69745, 69747, 69749, 69759, 69763, 69808, 69819,
    69826, 69827, 69888, 69891, 69927, 69941, 69957, 69959, 70003, 70004, 70016, 70019, 70067,
    70081, 70089, 70093, 70094, 70096, 70188, 70200, 70206, 70207, 70209, 70210, 70367, 70379,
    70400, 70404]

/-- Part 2 of `combiningBounds`. -/
def combiningBounds2 : List Nat :=
  [70459, 70461, 70462, 70469, 70471, 70473, 70475, 70478, 70487, 70488, 70498, 70500, 70502, 70509,
    70512, 70517, 70709, 70727, 70750, 70751, 70832, 70852, 71087, 71094, 71096, 71105, 71132,
    71134, 71216, 71233, 71339, 71352, 71453, 71468, 71724, 71739, 71984, 71990, 71991, 71993,
    71995, 71999, 72000, 72001, 72002, 72004, 72145, 72152, 72154, 72161, 72164, 72165, 72193,
    72203, 72243, 72250, 72251, 72255, 72263, 72264, 72273, 72284, 72330, 72346, 72751, 72759,
    72760, 72768, 72850, 72872, 72873, 72887, 73009, 73015, 73018, 73019, 73020, 73022, 73023,
    73030, 73031, 73032, 73098, 73103, 73104, 73106, 73107, 73112, 73459, 73463, 73472, 73474,
    73475, 73476, 73524, 73531, 73534, 73539, 78912, 78913, 78919, 78934, 92912, 92917, 92976,
    92983, 94031, 94032, 94033, 94088, 94095, 94099, 94192, 94194, 113821, 113823, 113824, 113828,
    118528, 118574, 118576, 118599, 119141, 119146, 119149, 119171, 119173, 119180, 119210, 119214,
    119362, 119365, 121344, 121399, 121403, 121453, 121461, 121462, 121476, 121477, 121499, 121504,
    121505, 121520, 122880, 122887, 122888, 122905, 122907, 122914, 122915, 122917, 122918, 122923,
    123023, 123024, 123184, 123191, 123566, 123567, 123628, 123632, 124140, 124144, 125136, 125143,
    125252, 125259, 917505, 917506, 917536, 917632, 917760, 918000]

/-- Where marks start and end. -/
def combiningBounds : List Nat :=
  combiningBounds0 ++ combiningBounds1 ++ combiningBounds2

/-- Part 0 of `ideographBounds`. -/
def ideographBounds0 : List Nat :=
  [8986, 8988, 9200, 9204, 9728, 9732, 9748, 9750, 9752, 9753, 9754, 9757, 9758, 9760, 9785, 9788,
    9832, 9833, 9855, 9856, 9917, 9929, 9933, 9934, 9935, 9938, 9939, 9941, 9944, 9946, 9948, 9949,
    9951, 9954, 9962, 9963, 9969, 9974, 9975, 9977, 9978, 9979, 9981, 9989, 9992, 9994, 10084,
    10085, 11904, 11930, 11931, 12020, 12032, 12246, 12272, 12284, 12291, 12293, 12294, 12296,
    12306, 12308, 12320, 12330, 12336, 12341, 12342, 12347, 12349, 12352, 12354, 12355, 12356,
    12357, 12358, 12359, 12360, 12361, 12362, 12387, 12388, 12419, 12420, 12421, 12422, 12423,
    12424, 12430, 12431, 12437, 12447, 12448, 12450, 12451, 12452, 12453, 12454, 12455, 12456,
    12457, 12458, 12483, 12484, 12515, 12516, 12517, 12518, 12519, 12520, 12526, 12527, 12533,
    12535, 12539, 12543, 12544, 12549, 12592, 12593, 12687, 12688, 12772, 12800, 12831, 12832,
    12872, 12880, 19904, 19968, 40981, 40982, 42125, 42128, 42183, 63744, 64256, 65072, 65077,
    65093, 65095, 65097, 65104, 65105, 65106, 65112, 65113, 65119, 65127, 65128, 65129, 65131,
    65132, 65282, 65284, 65286, 65288, 65290, 65292, 65293, 65294, 65295, 65306, 65308, 65311,
    65312, 65339, 65340, 65341, 65342, 65371, 65372, 65373, 65374, 65375, 65382, 65383, 65393,
    65438, 65440, 65471, 65474, 65480, 65482, 65488, 65490, 65496, 65498, 65501, 65506, 65509,
    73541, 73552, 94208, 100344, 100352, 101120, 101632, 101641, 110592, 110883, 110960, 111356,
    126976, 127232, 127245, 127248, 127341, 127344, 127405, 127462, 127488, 127877, 127878, 127900,
    127902, 127925, 127927, 127932, 127933, 127938, 127941, 127943, 127944, 127946, 127949, 127995,
    128000, 128066, 128068, 128070, 128081, 128102, 128121, 128124, 128125, 128129, 128132, 128133,
    128136, 128143]

/-- Part 1 of `ideographBounds`. -/
def ideographBounds1 : List Nat :=
  [128144, 128145, 128146, 128160, 128161, 128162, 128163, 128164, 128165, 128170, 128171, 128175,
    128176, 128177, 128179, 128256, 128263, 128279, 128293, 128306, 128330, 128372, 128374, 128378,
    128379, 128400, 128401, 128405, 128407, 128468, 128476, 128500, 128506, 128581, 128584, 128587,
    128640, 128675, 128676, 128692, 128695, 128704, 128705, 128716, 128717, 128768, 128884, 128896,
    128981, 129024, 129036, 129040, 129096, 129104, 129114, 129120, 129160, 129168, 129198, 129280,
    129293, 129295, 129296, 129304, 129312, 129318, 129319, 129328, 129338, 129340, 129343, 129399,
    129400, 129461, 129463, 129464, 129466, 129467, 129468, 129485, 129488, 129489, 129502, 129536,
    129620, 129731, 129734, 129776, 129785, 129792, 130048, 131070, 131072, 196606, 196608, 262142]

/-- Where ideographs start and end. -/
def ideographBounds : List Nat :=
  ideographBounds0 ++ ideographBounds1

/-- Where characters with a break after them starts and ends. -/
def afterBounds : List Nat :=
  [9, 10, 124, 125, 173, 174, 1418, 1419, 1470, 1471, 2404, 2406, 3674, 3676, 3851, 3852, 3892,
    3893, 3967, 3968, 3973, 3974, 4030, 4032, 4050, 4051, 4170, 4172, 4961, 4962, 5120, 5121, 5760,
    5761, 5867, 5870, 5941, 5943, 6100, 6102, 6104, 6105, 6106, 6107, 6148, 6150, 7002, 7004, 7005,
    7009, 7037, 7039, 7227, 7232, 7294, 7296, 8192, 8199, 8200, 8203, 8208, 8209, 8210, 8212, 8231,
    8232, 8278, 8279, 8280, 8284, 8285, 8288, 11514, 11517, 11519, 11520, 11632, 11633, 11790,
    11798, 11799, 11800, 11801, 11802, 11818, 11822, 11824, 11826, 11827, 11829, 11836, 11839,
    11840, 11842, 11843, 11851, 11852, 11853, 11854, 11856, 11869, 11870, 12288, 12289, 42238,
    42240, 42509, 42510, 42511, 42512, 42739, 42744, 43214, 43216, 43310, 43312, 43463, 43466,
    43613, 43616, 43760, 43762, 44011, 44012, 65792, 65795, 66463, 66464, 66512, 66513, 67671,
    67672, 67871, 67872, 68176, 68184, 68336, 68342, 68409, 68416, 69293, 69294, 69703, 69705,
    69822, 69826, 69952, 69956, 70085, 70087, 70088, 70089, 70109, 70112, 70200, 70202, 70203,
    70205, 70313, 70314, 70731, 70735, 70746, 70748, 71106, 71108, 71113, 71128, 71233, 71235,
    71484, 71487, 72004, 72007, 72257, 72261, 72346, 72349, 72353, 72355, 72769, 72774, 73539,
    73541, 73727, 73728, 74864, 74869, 92782, 92784, 92917, 92918, 92983, 92986, 92996, 92997,
    93847, 93849, 113823, 113824, 121479, 121483]

/-- Where opening punctuation starts and ends. -/
def openingBounds : List Nat :=
  [40, 41, 91, 92, 123, 124, 161, 162, 191, 192, 3898, 3899, 3900, 3901, 5787, 5788, 8218, 8219,
    8222, 8223, 8261, 8262, 8317, 8318, 8333, 8334, 8968, 8969, 8970, 8971, 9001, 9002, 10088,
    10089, 10090, 10091, 10092, 10093, 10094, 10095, 10096, 10097, 10098, 10099, 10100, 10101,
    10181, 10182, 10214, 10215, 10216, 10217, 10218, 10219, 10220, 10221, 10222, 10223, 10627,
    10628, 10629, 10630, 10631, 10632, 10633, 10634, 10635, 10636, 10637, 10638, 10639, 10640,
    10641, 10642, 10643, 10644, 10645, 10646, 10647, 10648, 10712, 10713, 10714, 10715, 10748,
    10749, 11800, 11801, 11810, 11811, 11812, 11813, 11814, 11815, 11816, 11817, 11842, 11843,
    11861, 11862, 11863, 11864, 11865, 11866, 11867, 11868, 12296, 12297, 12298, 12299, 12300,
    12301, 12302, 12303, 12304, 12305, 12308, 12309, 12310, 12311, 12312, 12313, 12314, 12315,
    12317, 12318, 64831, 64832, 65047, 65048, 65077, 65078, 65079, 65080, 65081, 65082, 65083,
    65084, 65085, 65086, 65087, 65088, 65089, 65090, 65091, 65092, 65095, 65096, 65113, 65114,
    65115, 65116, 65117, 65118, 65288, 65289, 65339, 65340, 65371, 65372, 65375, 65376, 65378,
    65379, 78424, 78427, 78470, 78471, 78472, 78473, 78713, 78714, 78903, 78904, 78908, 78909,
    78910, 78911, 83406, 83407, 125278, 125280]

/-- Where closing punctuation starts and ends. -/
def closingBounds : List Nat :=
  [125, 126, 3899, 3900, 3901, 3902, 5788, 5789, 8262, 8263, 8318, 8319, 8334, 8335, 8969, 8970,
    8971, 8972, 9002, 9003, 10089, 10090, 10091, 10092, 10093, 10094, 10095, 10096, 10097, 10098,
    10099, 10100, 10101, 10102, 10182, 10183, 10215, 10216, 10217, 10218, 10219, 10220, 10221,
    10222, 10223, 10224, 10628, 10629, 10630, 10631, 10632, 10633, 10634, 10635, 10636, 10637,
    10638, 10639, 10640, 10641, 10642, 10643, 10644, 10645, 10646, 10647, 10648, 10649, 10713,
    10714, 10715, 10716, 10749, 10750, 11811, 11812, 11813, 11814, 11815, 11816, 11817, 11818,
    11862, 11863, 11864, 11865, 11866, 11867, 11868, 11869, 12289, 12291, 12297, 12298, 12299,
    12300, 12301, 12302, 12303, 12304, 12305, 12306, 12309, 12310, 12311, 12312, 12313, 12314,
    12315, 12316, 12318, 12320, 64830, 64831, 65041, 65043, 65048, 65049, 65078, 65079, 65080,
    65081, 65082, 65083, 65084, 65085, 65086, 65087, 65088, 65089, 65090, 65091, 65092, 65093,
    65096, 65097, 65104, 65105, 65106, 65107, 65114, 65115, 65116, 65117, 65118, 65119, 65289,
    65290, 65292, 65293, 65294, 65295, 65341, 65342, 65373, 65374, 65376, 65378, 65379, 65381,
    78427, 78430, 78466, 78467, 78471, 78472, 78473, 78474, 78714, 78716, 78904, 78905, 78909,
    78910, 78911, 78912, 83407, 83408]

/-- Where digits start and end. -/
def numericBounds : List Nat :=
  [48, 58, 1632, 1642, 1643, 1645, 1776, 1786, 1984, 1994, 2406, 2416, 2534, 2544, 2662, 2672, 2790,
    2800, 2918, 2928, 3046, 3056, 3174, 3184, 3302, 3312, 3430, 3440, 3558, 3568, 3664, 3674, 3792,
    3802, 3872, 3882, 4160, 4170, 4240, 4250, 6112, 6122, 6160, 6170, 6470, 6480, 6608, 6618, 6784,
    6794, 6800, 6810, 6992, 7002, 7088, 7098, 7232, 7242, 7248, 7258, 42528, 42538, 43216, 43226,
    43264, 43274, 43472, 43482, 43504, 43514, 43600, 43610, 44016, 44026, 66720, 66730, 68912,
    68922, 69734, 69744, 69872, 69882, 69942, 69952, 70096, 70106, 70384, 70394, 70736, 70746,
    70864, 70874, 71248, 71258, 71360, 71370, 71472, 71482, 71904, 71914, 72016, 72026, 72784,
    72794, 73040, 73050, 73120, 73130, 73552, 73562, 92768, 92778, 92864, 92874, 93008, 93018,
    120782, 120832, 123200, 123210, 123632, 123642, 124144, 124154, 125264, 125274, 130032, 130042]

/-- Where characters that do not start a line starts and ends. -/
def nonstarterBounds : List Nat :=
  [6102, 6103, 8252, 8254, 8263, 8266, 12293, 12294, 12316, 12317, 12347, 12349, 12353, 12354,
    12355, 12356, 12357, 12358, 12359, 12360, 12361, 12362, 12387, 12388, 12419, 12420, 12421,
    12422, 12423, 12424, 12430, 12431, 12437, 12439, 12443, 12447, 12448, 12450, 12451, 12452,
    12453, 12454, 12455, 12456, 12457, 12458, 12483, 12484, 12515, 12516, 12517, 12518, 12519,
    12520, 12526, 12527, 12533, 12535, 12539, 12543, 12784, 12800, 40981, 40982, 65108, 65110,
    65306, 65308, 65381, 65382, 65383, 65393, 65438, 65440, 94176, 94180, 110898, 110899, 110928,
    110931, 110933, 110934, 110948, 110952, 128633, 128636]

/-- Where emoji that can be modified starts and ends. -/
def emojiBaseBounds : List Nat :=
  [9757, 9758, 9977, 9978, 9994, 9998, 127877, 127878, 127938, 127941, 127943, 127944, 127946,
    127949, 128066, 128068, 128070, 128081, 128102, 128121, 128124, 128125, 128129, 128132, 128133,
    128136, 128143, 128144, 128145, 128146, 128170, 128171, 128372, 128374, 128378, 128379, 128400,
    128401, 128405, 128407, 128581, 128584, 128587, 128592, 128675, 128676, 128692, 128695, 128704,
    128705, 128716, 128717, 129292, 129293, 129295, 129296, 129304, 129312, 129318, 129319, 129328,
    129338, 129340, 129343, 129399, 129400, 129461, 129463, 129464, 129466, 129467, 129468, 129485,
    129488, 129489, 129502, 129731, 129734, 129776, 129785]

/-- Where exclamation marks start and end. -/
def exclamationBounds : List Nat :=
  [33, 34, 63, 64, 1478, 1479, 1563, 1564, 1565, 1568, 1748, 1749, 2041, 2042, 3853, 3858, 3860,
    3861, 6146, 6148, 6152, 6154, 6468, 6470, 10082, 10084, 11513, 11514, 11518, 11519, 11822,
    11823, 11859, 11861, 42510, 42511, 43126, 43128, 65045, 65047, 65110, 65112, 65281, 65282,
    65311, 65312, 71108, 71110, 72817, 72818]

/-- Where what stands before numbers starts and ends. -/
def currencyBounds : List Nat :=
  [36, 37, 43, 44, 92, 93, 163, 166, 177, 178, 1423, 1424, 2046, 2048, 2555, 2556, 2801, 2802, 3065,
    3066, 3647, 3648, 6107, 6108, 8352, 8359, 8360, 8374, 8375, 8379, 8380, 8382, 8383, 8384, 8385,
    8400, 8470, 8471, 8722, 8724, 65129, 65130, 65284, 65285, 65505, 65506, 65509, 65511, 123647,
    123648]

/-- Where what stands behind numbers starts and ends. -/
def percentBounds : List Nat :=
  [37, 38, 162, 163, 176, 177, 1545, 1548, 1642, 1643, 2546, 2548, 2553, 2554, 3449, 3450, 8240,
    8248, 8279, 8280, 8359, 8360, 8374, 8375, 8379, 8380, 8382, 8383, 8384, 8385, 8451, 8452, 8457,
    8458, 43064, 43065, 65020, 65021, 65130, 65131, 65285, 65286, 65504, 65505, 73693, 73697,
    126124, 126125, 126128, 126129]

/-- Where characters with a break before them starts and ends. -/
def beforeBounds : List Nat :=
  [180, 181, 712, 713, 716, 717, 735, 736, 3191, 3192, 3204, 3205, 3841, 3845, 3846, 3848, 3849,
    3851, 4048, 4050, 4051, 4052, 6150, 6151, 8189, 8190, 43124, 43126, 43260, 43261, 70005, 70006,
    70107, 70108, 71105, 71106, 71264, 71277, 72162, 72163, 72255, 72256, 72261, 72262, 72350,
    72353, 72448, 72458, 72816, 72817]

/-- Where characters that glue others together starts and ends. -/
def glueBounds : List Nat :=
  [160, 161, 847, 848, 860, 867, 3848, 3849, 3852, 3853, 3858, 3859, 4057, 4059, 6158, 6159, 7629,
    7630, 7676, 7677, 8199, 8200, 8209, 8210, 8239, 8240, 78896, 78903, 78905, 78908, 94180, 94181]

/-- Where quotation marks start and end. -/
def quotationBounds : List Nat :=
  [34, 35, 39, 40, 171, 172, 187, 188, 8216, 8218, 8219, 8222, 8223, 8224, 8249, 8251, 10075, 10081,
    11776, 11790, 11804, 11806, 11808, 11810, 128630, 128633]

/-- Where separators inside numbers start and end. -/
def separatorBounds : List Nat :=
  [44, 45, 46, 47, 58, 60, 894, 895, 1417, 1418, 1548, 1550, 2040, 2041, 8260, 8261, 65040, 65041,
    65043, 65045]

/-- Where Hebrew letters start and end. -/
def hebrewBounds : List Nat :=
  [1488, 1515, 1519, 1523, 64285, 64286, 64287, 64297, 64298, 64311, 64312, 64317, 64318, 64319,
    64320, 64322, 64323, 64325, 64326, 64336]

/-- Where leaders start and end. -/
def inseparableBounds : List Nat :=
  [8228, 8231, 8943, 8944, 65049, 65050, 68342, 68343]

/-- The classes that have few characters, with where they start and end. -/
def smallClasses : List (BreakClass × List Nat) :=
  [(.mandatory, [11, 13, 8232, 8234]), (.carriageReturn, [13, 14]), (.lineFeed, [10, 11]),
    (.nextLine, [133, 134]), (.space, [32, 33]), (.zeroWidthSpace, [8203, 8204]),
    (.joiner, [8205, 8206]), (.wordJoiner, [8288, 8289, 65279, 65280]),
    (.dash, [8212, 8213, 11834, 11836]), (.hyphen, [45, 46]), (.contingent, [65532, 65533]),
    (.parenthesis, [41, 42, 93, 94]), (.slash, [47, 48]), (.emojiModifier, [127995, 128000]),
    (.leadingJamo, [4352, 4448, 43360, 43389]), (.vowelJamo, [4448, 4520, 55216, 55239]),
    (.trailingJamo, [4520, 4608, 55243, 55292]), (.regional, [127462, 127488])]

/-- The other classes, with where they start and end. -/
def largeClasses : List (BreakClass × List Nat) :=
  [(.combining, combiningBounds), (.ideograph, ideographBounds), (.after, afterBounds),
    (.opening, openingBounds), (.closing, closingBounds), (.numeric, numericBounds),
    (.nonstarter, nonstarterBounds), (.emojiBase, emojiBaseBounds),
    (.exclamation, exclamationBounds), (.currency, currencyBounds), (.percent, percentBounds),
    (.before, beforeBounds), (.glue, glueBounds), (.quotation, quotationBounds),
    (.separator, separatorBounds), (.hebrew, hebrewBounds), (.inseparable, inseparableBounds)]

/-- The class of a Hangul syllable: every 28th of them has no final consonant. -/
def syllable? (n : Nat) : Option BreakClass :=
  if 44032 ≤ n ∧ n < 55204 then
    some (if (n - 44032) % 28 = 0 then openSyllable else closedSyllable)
  else none

/-- The class of a character. -/
def ofChar (c : Char) : BreakClass :=
  match syllable? c.toNat with
  | some b => b
  | none =>
    match (smallClasses ++ largeClasses).find? fun e => inRanges e.2 c.toNat with
    | some e => e.1
    | none => letter

end BreakClass

end Dataflow
