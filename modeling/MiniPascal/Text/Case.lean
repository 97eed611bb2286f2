import MiniPascal.Text.Cased

/-!
# Upper and Lower Case

The full case mappings of Unicode 14. Most letters move by a fixed distance that a whole run of
letters shares; a few become several letters, and the lower case of the Greek sigma depends on its
place in a word. Capitals go back to the letters that they are the upper case of, with few
exceptions.
-/

namespace MiniPascal.Text

/-- A run of letters `first, first + step, …, last` that all move by the distance from `first` to
its image: the four numbers are `first`, `last`, `step` and that image. -/
abbrev CaseRun := Nat × Nat × Nat × Nat

/-- The run of a letter that moves by itself. -/
def CaseRun.single (letter : Nat × Nat) : CaseRun := (letter.1, letter.1, 1, letter.2)

/-- The run that leads back. -/
def CaseRun.inverse : CaseRun → CaseRun
  | (first, last, step, image) => (image, image + (last - first), step, first)

/-- Letters that have an upper case, by their runs. -/
def upperShared : List CaseRun :=
  [(97, 122, 1, 65), (224, 246, 1, 192), (248, 254, 1, 216), (257, 303, 2, 256), (307, 311, 2, 306),
   (314, 328, 2, 313), (331, 375, 2, 330), (378, 382, 2, 377), (387, 389, 2, 386),
   (417, 421, 2, 416), (436, 438, 2, 435), (462, 476, 2, 461), (479, 495, 2, 478),
   (505, 543, 2, 504), (547, 563, 2, 546), (575, 576, 1, 11390), (583, 591, 2, 582),
   (598, 599, 1, 393), (650, 651, 1, 433), (881, 883, 2, 880), (891, 893, 1, 1021),
   (941, 943, 1, 904), (945, 961, 1, 913), (963, 971, 1, 931), (973, 974, 1, 910),
   (985, 1007, 2, 984), (1072, 1103, 1, 1040), (1104, 1119, 1, 1024), (1121, 1153, 2, 1120),
   (1163, 1215, 2, 1162), (1218, 1230, 2, 1217), (1233, 1327, 2, 1232), (1377, 1414, 1, 1329),
   (4304, 4346, 1, 7312), (4349, 4351, 1, 7357), (5112, 5117, 1, 5104), (7299, 7300, 1, 1057),
   (7681, 7829, 2, 7680), (7841, 7935, 2, 7840), (7936, 7943, 1, 7944), (7952, 7957, 1, 7960),
   (7968, 7975, 1, 7976), (7984, 7991, 1, 7992), (8000, 8005, 1, 8008), (8017, 8023, 2, 8025),
   (8032, 8039, 1, 8040), (8048, 8049, 1, 8122), (8050, 8053, 1, 8136), (8054, 8055, 1, 8154),
   (8056, 8057, 1, 8184), (8058, 8059, 1, 8170), (8060, 8061, 1, 8186), (8112, 8113, 1, 8120),
   (8144, 8145, 1, 8152), (8160, 8161, 1, 8168), (8560, 8575, 1, 8544), (9424, 9449, 1, 9398),
   (11312, 11359, 1, 11264), (11368, 11372, 2, 11367), (11393, 11491, 2, 11392),
   (11500, 11502, 2, 11499), (11520, 11557, 1, 4256), (42561, 42605, 2, 42560),
   (42625, 42651, 2, 42624), (42787, 42799, 2, 42786), (42803, 42863, 2, 42802),
   (42874, 42876, 2, 42873), (42879, 42887, 2, 42878), (42897, 42899, 2, 42896),
   (42903, 42921, 2, 42902), (42933, 42947, 2, 42932), (42952, 42954, 2, 42951),
   (42967, 42969, 2, 42966), (43888, 43967, 1, 5024), (65345, 65370, 1, 65313),
   (66600, 66639, 1, 66560), (66776, 66811, 1, 66736), (66967, 66977, 1, 66928),
   (66979, 66993, 1, 66940), (66995, 67001, 1, 66956), (67003, 67004, 1, 66964),
   (68800, 68850, 1, 68736), (71872, 71903, 1, 71840), (93792, 93823, 1, 93760),
   (125218, 125251, 1, 125184)]

/-- Letters that have an upper case and lie on no run, with it. -/
def upperSingle : List (Nat × Nat) :=
  [(181, 924), (255, 376), (305, 73), (383, 83), (384, 579), (392, 391), (396, 395), (402, 401),
   (405, 502), (409, 408), (410, 573), (414, 544), (424, 423), (429, 428), (432, 431), (441, 440),
   (445, 444), (447, 503), (453, 452), (454, 452), (456, 455), (457, 455), (459, 458), (460, 458),
   (477, 398), (498, 497), (499, 497), (501, 500), (572, 571), (578, 577), (592, 11375),
   (593, 11373), (594, 11376), (595, 385), (596, 390), (601, 399), (603, 400), (604, 42923),
   (608, 403), (609, 42924), (611, 404), (613, 42893), (614, 42922), (616, 407), (617, 406),
   (618, 42926), (619, 11362), (620, 42925), (623, 412), (625, 11374), (626, 413), (629, 415),
   (637, 11364), (640, 422), (642, 42949), (643, 425), (647, 42929), (648, 430), (649, 580),
   (652, 581), (658, 439), (669, 42930), (670, 42928), (837, 921), (887, 886), (940, 902),
   (962, 931), (972, 908), (976, 914), (977, 920), (981, 934), (982, 928), (983, 975), (1008, 922),
   (1009, 929), (1010, 1017), (1011, 895), (1013, 917), (1016, 1015), (1019, 1018), (1231, 1216),
   (7296, 1042), (7297, 1044), (7298, 1054), (7301, 1058), (7302, 1066), (7303, 1122),
   (7304, 42570), (7545, 42877), (7549, 11363), (7566, 42950), (7835, 7776), (8126, 921),
   (8165, 8172), (8526, 8498), (8580, 8579), (11361, 11360), (11365, 570), (11366, 574),
   (11379, 11378), (11382, 11381), (11507, 11506), (11559, 4295), (11565, 4301), (42892, 42891),
   (42900, 42948), (42961, 42960), (42998, 42997), (43859, 42931)]

def upperRuns : List CaseRun := upperShared ++ upperSingle.map CaseRun.single

/-- Greek letters with an iota below, which becomes a letter of its own. -/
def withIota (first image : Nat) : List (Nat × List Nat) :=
  (List.range 16).map fun k => (first + k, [image + k % 8, 0x399])

def upperExpansions : List (Nat × List Nat) :=
  withIota 0x1f80 0x1f08 ++ withIota 0x1f90 0x1f28 ++ withIota 0x1fa0 0x1f68 ++
  [(223, [83, 83]), (329, [700, 78]), (496, [74, 780]), (912, [921, 776, 769]),
   (944, [933, 776, 769]), (1415, [1333, 1362]), (7830, [72, 817]), (7831, [84, 776]),
   (7832, [87, 778]), (7833, [89, 778]), (7834, [65, 702]), (8016, [933, 787]),
   (8018, [933, 787, 768]), (8020, [933, 787, 769]), (8022, [933, 787, 834]), (8114, [8122, 921]),
   (8115, [913, 921]), (8116, [902, 921]), (8118, [913, 834]), (8119, [913, 834, 921]),
   (8124, [913, 921]), (8130, [8138, 921]), (8131, [919, 921]), (8132, [905, 921]),
   (8134, [919, 834]), (8135, [919, 834, 921]), (8140, [919, 921]), (8146, [921, 776, 768]),
   (8147, [921, 776, 769]), (8150, [921, 834]), (8151, [921, 776, 834]), (8162, [933, 776, 768]),
   (8163, [933, 776, 769]), (8164, [929, 787]), (8166, [933, 834]), (8167, [933, 776, 834]),
   (8178, [8186, 921]), (8179, [937, 921]), (8180, [911, 921]), (8182, [937, 834]),
   (8183, [937, 834, 921]), (8188, [937, 921]), (64256, [70, 70]), (64257, [70, 73]),
   (64258, [70, 76]), (64259, [70, 70, 73]), (64260, [70, 70, 76]), (64261, [83, 84]),
   (64262, [83, 84]), (64275, [1348, 1350]), (64276, [1348, 1333]), (64277, [1348, 1339]),
   (64278, [1358, 1350]), (64279, [1348, 1341])]

/-- Capitals that are not led back to what they are the upper case of. -/
def lowerSingle : List (Nat × Nat) :=
  [(452, 454), (453, 454), (455, 457), (456, 457), (458, 460), (459, 460), (497, 499), (498, 499),
   (1012, 952), (7838, 223), (8124, 8115), (8140, 8131), (8188, 8179), (8486, 969), (8490, 107),
   (8491, 229)]

def lowerRuns : List CaseRun :=
  [(65, 90, 1, 97), (8072, 8079, 1, 8064), (8088, 8095, 1, 8080), (8104, 8111, 1, 8096)] ++
    lowerSingle.map CaseRun.single ++ upperRuns.map CaseRun.inverse

def lowerExpansions : List (Nat × List Nat) :=
  [(0x130, [0x69, 0x307])]

/-- Moves `code` with the first run that it lies on, if it lies on one. -/
def shiftOn (code : Nat) : List CaseRun → Nat
  | [] => code
  | (first, last, step, image) :: rest =>
    if first ≤ code ∧ code ≤ last ∧ (code - first) % step = 0 then image + (code - first)
    else shiftOn code rest

/-- Moves `code` with its run. That of the ASCII letters comes first. -/
def shiftBy (code : Nat) (runs : List CaseRun) : Nat :=
  shiftOn code (if code < 0x80 then runs.take 1 else runs)

def mapCase (runs : List CaseRun) (expansions : List (Nat × List Nat)) (c : Char) : List Char :=
  match expansions.lookup c.toNat with
  | some codes => codes.map Char.ofNat
  | none => [Char.ofNat (shiftBy c.toNat runs)]

/-- The upper case of `s`. -/
def toUpper (s : String) : String :=
  String.ofList (s.toList.flatMap (mapCase upperRuns upperExpansions))

/-- The lower case of characters after `before`, which stand there in reverse order. A capital sigma
at the end of a word becomes a final sigma. -/
def lowerAfter (before : List Char) : List Char → List Char
  | [] => []
  | c :: rest =>
    let lower :=
      if c = 'Σ' ∧ startsCased before ∧ !startsCased rest then ['ς']
      else mapCase lowerRuns lowerExpansions c
    lower ++ lowerAfter (c :: before) rest

/-- The lower case of `s`. -/
def toLower (s : String) : String := String.ofList (lowerAfter [] s.toList)

end MiniPascal.Text
