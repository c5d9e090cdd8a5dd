import PollKeeper.Time.OffsetHistory

/-!
# Offsets of zones in Asia
-/

namespace PollKeeper.Time.ZoneOffsets

open OffsetHistory

def kolkata : OffsetHistory where
  first := 21208
  changes :=
    alternating 21200 19270 [-3645237208, -3155694800] ++
    alternating 19800 23400 [-2019705670, -891581400, -872058600, -862637400, -764145000]

def kathmandu : OffsetHistory where
  first := 20476
  changes :=
    alternating 19800 20700 [-1577943676, 504901800]

def tehran : OffsetHistory where
  first := 12344
  changes :=
    alternating 12600 16200 [-1090466744, 227820600] ++
    alternating 14400 18000 [246223800, 259617600, 271108800] ++
    alternating 12600 16200
      [279576000, 296598600, 306531000, 322432200, 338499000, 673216200, 685481400, 701209800,
       717103800, 732745800, 748639800, 764281800, 780175800, 795817800, 811711800, 827353800,
       843247800, 858976200, 874870200, 890512200, 906406200, 922048200, 937942200, 953584200,
       969478200, 985206600, 1001100600, 1016742600, 1032636600, 1048278600, 1064172600,
       1079814600, 1095708600, 1111437000, 1127331000, 1206045000, 1221939000, 1237667400,
       1253561400, 1269203400, 1285097400, 1300739400, 1316633400, 1332275400, 1348169400,
       1363897800, 1379791800, 1395433800, 1411327800, 1426969800, 1442863800, 1458505800,
       1474399800, 1490128200, 1506022200, 1521664200, 1537558200, 1553200200, 1569094200,
       1584736200, 1600630200, 1616358600, 1632252600, 1647894600, 1663788600]

def tokyo : OffsetHistory where
  first := 33539
  changes :=
    alternating 32400 36000
      [-2587712400, -683802000, -672310800, -654771600, -640861200, -620298000, -609411600,
       -588848400, -577962000]

end PollKeeper.Time.ZoneOffsets
